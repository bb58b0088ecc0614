import Asm16.Assembly.Assemble
import Asm16.Proofs.FirstPass

/-! The second pass. Statements are emitted one after the other, each at the address where the one
before ended, so that the addresses of the first pass are those of the words emitted. The only thing
that can go wrong is a label that no line declares. -/

namespace Asm16.Assembly

inductive Emitted (symbols : Symbols) : Nat → List Statement → List Program.Entry → Prop
  | nil (address : Nat) : Emitted symbols address [] []
  | cons {address : Nat} {s : Statement} {words : List UInt16} {rest : List Statement}
    {entries : List Program.Entry} (hwords : s.body.emit symbols = .ok words)
    (hrest : Emitted symbols (address + words.length) rest entries) :
    Emitted symbols address (s :: rest) (⟨s.line, address, s.tokens, words⟩ :: entries)

theorem exists_emitted_of_emitFrom {symbols : Symbols} {address : Nat} {done entries : List Program.Entry}
    {ss : List Statement} (h : emitFrom symbols address done ss = .ok entries) :
    ∃ es, Emitted symbols address ss es ∧ entries = done.reverse ++ es := by
  induction ss generalizing address done with
  | nil =>
    obtain rfl := Except.ok.inj h
    exact ⟨[], .nil address, (List.append_nil _).symm⟩
  | cons s rest ih =>
    rw [emitFrom] at h
    split at h
    · contradiction
    · rename_i words hwords
      obtain ⟨es, hes, rfl⟩ := ih h
      refine ⟨_ :: es, .cons hwords hes, ?_⟩
      rw [List.reverse_cons, List.append_assoc]
      rfl

def wordsBefore (number : Nat) (entries : List Program.Entry) : Nat :=
  ((entries.filter fun e => e.line < (number : Int)).map (·.words.length)).sum

namespace Emitted

variable {symbols : Symbols} {address : Nat} {ss : List Statement} {entries : List Program.Entry}

theorem map_written (h : Emitted symbols address ss entries) :
    entries.map (fun e => (e.line, e.tokens)) = ss.map (fun s => ((s.line : Int), s.tokens)) := by
  induction h with
  | nil => rfl
  | cons _ _ ih => rw [List.map_cons, List.map_cons, ih]

theorem exists_statement (h : Emitted symbols address ss entries) {e : Program.Entry}
    (he : e ∈ entries) :
    ∃ s ∈ ss, e.line = s.line ∧ e.tokens = s.tokens ∧ s.body.emit symbols = .ok e.words := by
  induction h with
  | nil => contradiction
  | cons hwords _ ih =>
    rcases List.mem_cons.1 he with rfl | he
    · exact ⟨_, List.mem_cons_self .., rfl, rfl, hwords⟩
    · obtain ⟨s, hs, hrest⟩ := ih he
      exact ⟨s, List.mem_cons_of_mem _ hs, hrest⟩

theorem address_head (h : Emitted symbols address ss entries) {e : Program.Entry}
    (he : entries[0]? = some e) : e.address = address := by
  cases h with
  | nil => contradiction
  | cons _ _ =>
    obtain rfl := Option.some.inj he
    rfl

theorem address_next (h : Emitted symbols address ss entries) {i : Nat} {e next : Program.Entry}
    (he : entries[i]? = some e) (hnext : entries[i + 1]? = some next) :
    next.address = e.address + e.words.length := by
  induction h generalizing i with
  | nil => contradiction
  | cons hwords hrest ih =>
    cases i with
    | zero =>
      obtain rfl := Option.some.inj he
      rw [hrest.address_head hnext]
      push_cast
      rfl
    | succ i => exact ih he hnext

theorem wordsBefore_eq (h : Emitted symbols address ss entries) (number : Nat) :
    wordsBefore number entries = sizeBefore number ss := by
  induction h with
  | nil => rfl
  | cons hwords _ ih =>
    rename_i s words rest entries _
    unfold wordsBefore sizeBefore at ih ⊢
    by_cases hline : s.line < number
    · rw [List.filter_cons_of_pos (by simpa using hline), List.filter_cons_of_pos (by simpa using hline),
        List.map_cons, List.sum_cons, List.map_cons, List.sum_cons, ih, Body.length_of_emit hwords]
    · rw [List.filter_cons_of_neg (by simpa using hline), List.filter_cons_of_neg (by simpa using hline), ih]

theorem length_words (h : Emitted symbols address ss entries) :
    (entries.flatMap Program.Entry.words).length = (ss.map (·.body.size)).sum := by
  induction h with
  | nil => rfl
  | cons hwords _ ih =>
    rw [List.flatMap_cons, List.length_append, ih, List.map_cons, List.sum_cons,
      Body.length_of_emit hwords]

end Emitted

theorem sizeBefore_reverse (number : Nat) (ss : List Statement) :
    sizeBefore number ss.reverse = sizeBefore number ss := by
  rw [sizeBefore, List.filter_reverse, List.map_reverse, List.sum_reverse]
  rfl

theorem exists_addLines_of_parse {evaluate : Evaluator} {source : Source} {p : Program}
    (h : parse evaluate source = .ok p) :
    ∃ layout : Layout, Layout.addLines evaluate 1 .start source.lines = .ok layout ∧
      Emitted layout.symbols 0 layout.statements.reverse p.entries ∧ p.symbols = layout.symbols := by
  unfold parse at h
  split at h
  · contradiction
  · rename_i layout hlayout
    unfold Layout.emit at h
    split at h
    · contradiction
    · rename_i entries hentries
      obtain rfl := Except.ok.inj h
      obtain ⟨es, hes, rfl⟩ := exists_emitted_of_emitFrom hentries
      exact ⟨layout, Layout.addLines_of_ofSource hlayout, hes, rfl⟩

theorem exists_layout_of_parse {evaluate : Evaluator} {source : Source} {p : Program}
    (h : parse evaluate source = .ok p) :
    ∃ layout : Layout, layout.Describes evaluate (declarations source.lines) (statements source.lines) ∧
      Emitted layout.symbols 0 layout.statements.reverse p.entries ∧ p.symbols = layout.symbols := by
  obtain ⟨layout, hlayout, hemitted, hsymbols⟩ := exists_addLines_of_parse h
  exact ⟨layout, Layout.describes_of_addLines hlayout, hemitted, hsymbols⟩

theorem length_words_le_of_parse {evaluate : Evaluator} {source : Source} {p : Program}
    (h : parse evaluate source = .ok p) : p.words.length ≤ memorySize := by
  obtain ⟨layout, hdescribes, hemitted, -⟩ := exists_layout_of_parse h
  rw [Program.words, hemitted.length_words, List.map_reverse, List.sum_reverse, ← hdescribes.address_eq]
  exact hdescribes.fits

theorem size_pos_of_spelt {evaluate : Evaluator} {tokens : List Text} {p : Grammar.Phrase}
    (h : p.Spelt evaluate tokens) (symbols : Symbols) : 0 < (p.body symbols).size := by
  cases h with
  | data _ hne hvalues =>
    rename_i arguments values _
    change 0 < (values.map Grammar.Atom.value).length
    rw [List.length_map, ← hvalues.length_eq]
    exact List.length_pos_iff.2 hne
  | nonBasic _ _ => exact Nat.add_pos_left Nat.one_pos _
  | basic _ _ _ => exact Nat.add_pos_left Nat.one_pos _

/-- The words of a program are laid out as its labels say: no statement is empty, each begins where
the one before ends, in the order of their lines, and all fit the memory. The labels are those that are
declared, and each stands for the number of words that the statements before its declaration give. -/
theorem parse_layout {evaluate : Evaluator} {source : Source} {p : Program}
    (h : parse evaluate source = .ok p) :
    (∀ e ∈ p.entries, e.words ≠ []) ∧
      (∀ e, p.entries[0]? = some e → e.address = 0) ∧
      (∀ (i : Nat) (e next : Program.Entry), p.entries[i]? = some e → p.entries[i + 1]? = some next →
        next.address = e.address + e.words.length) ∧
      p.entries.Pairwise (fun e next => e.line < next.line) ∧
      p.words.length ≤ 65536 ∧
      p.entries.map (fun e => (e.line, e.tokens)) =
        (statements source.lines).map (fun w => ((w.line : Int), w.tokens)) ∧
      (∀ label : Text, label ∈ p.symbols ↔ ∃ number, (number, label) ∈ declarations source.lines) ∧
      ∀ (label : Text) (address : UInt16), p.symbols[label]? = some address ↔
        ∃ number, (number, label) ∈ declarations source.lines ∧
          address.toNat = wordsBefore number p.entries := by
  obtain ⟨layout, hdescribes, hemitted, hsymbols⟩ := exists_layout_of_parse h
  have hlines : p.entries.map (fun e => (e.line, e.tokens)) =
      (statements source.lines).map (fun w => ((w.line : Int), w.tokens)) := by
    rw [hemitted.map_written, ← hdescribes.written_eq, List.map_map]
    rfl
  refine ⟨fun e he => ?_, fun e he => hemitted.address_head he,
    fun i e next he hnext => hemitted.address_next he hnext, ?_, ?_, hlines, fun label => ?_,
    fun label address => ?_⟩
  · obtain ⟨s, hs, -, -, hwords⟩ := hemitted.exists_statement he
    obtain ⟨symbols, phrase, hspelt, hbody, -⟩ := hdescribes.spelt s (List.mem_reverse.1 hs)
    have hpos := size_pos_of_spelt hspelt symbols
    rw [← hbody, ← Body.length_of_emit hwords] at hpos
    exact List.length_pos_iff.1 hpos
  · have hpairwise : ((statements source.lines).map (fun w => ((w.line : Int), w.tokens))).Pairwise
        (fun v w => v.1 < w.1) :=
      List.pairwise_map.2 ((pairwise_line_statements source.lines).imp Int.ofNat_lt.2)
    rw [← hlines, List.pairwise_map] at hpairwise
    exact hpairwise
  · rw [Program.words, hemitted.length_words, List.map_reverse, List.sum_reverse, ← hdescribes.address_eq]
    exact hdescribes.fits
  · rw [hsymbols]
    exact hdescribes.mem_symbols label
  · simp only [hsymbols, hdescribes.getElem?_symbols_iff, hemitted.wordsBefore_eq, sizeBefore_reverse]

def loopSource : Source :=
  Source.ofText (ascii ":loop SET A, done\n\n:table DAT 1, done\nSET [table+B], loop\n:done SET PC, done")

theorem map_words_loopSource :
    (parse Constant.closed loopSource).map (fun p => p.entries.map (·.words)) =
      .ok [[0x7c01, 6], [1, 6], [0x8111, 2], [0x99c1]] := by decide +kernel

theorem parse_layout_loopSource :
    ∃ p, parse Constant.closed loopSource = .ok p ∧
      p.entries.map (·.words) = [[0x7c01, 6], [1, 6], [0x8111, 2], [0x99c1]] ∧
      (∀ e ∈ p.entries, e.words ≠ []) ∧ p.entries.Pairwise (fun e next => e.line < next.line) ∧
      (∀ label : Text, label ∈ p.symbols ↔ ∃ number, (number, label) ∈ declarations loopSource.lines) ∧
      ∀ (label : Text) (address : UInt16), p.symbols[label]? = some address ↔
        ∃ number, (number, label) ∈ declarations loopSource.lines ∧
          address.toNat = wordsBefore number p.entries := by
  obtain ⟨p, hp, hwords⟩ := map_eq_ok_iff.1 map_words_loopSource
  obtain ⟨hne, -, -, hlines, -, -, hlabels, hsymbols⟩ := parse_layout hp
  exact ⟨p, hp, hwords.symm, hne, hlines, hlabels, hsymbols⟩

def declaredBy (lines : List Text) (number : Int) (label : Text) : Bool :=
  (declarations lines).any fun d => d.2 == label && decide ((d.1 : Int) ≤ number)

theorem declaredBy_eq_true_iff {lines : List Text} {number : Nat} {label : Text} :
    declaredBy lines number label = true ↔ ∃ n ≤ number, (n, label) ∈ declarations lines := by
  rw [declaredBy, List.any_eq_true]
  constructor
  · rintro ⟨⟨n, other⟩, hmem, hd⟩
    obtain ⟨rfl, hle⟩ : other = label ∧ n ≤ number := by simpa using hd
    exact ⟨n, hle, hmem⟩
  · rintro ⟨n, hle, hmem⟩
    exact ⟨(n, label), hmem, by simpa using hle⟩

theorem contains_eq_of_mem_iff {symbols : Symbols} {known : Text → Bool}
    (h : ∀ label : Text, label ∈ symbols ↔ known label = true) : (symbols.contains ·) = known := by
  funext label
  rw [Bool.eq_iff_iff, ← h label, Std.TreeMap.mem_iff_contains]

theorem contains_eq_declaredBy {lines : List Text} {symbols : Symbols} {number : Nat}
    (h : ∀ label : Text, label ∈ symbols ↔ ∃ n ≤ number, (n, label) ∈ declarations lines) :
    (symbols.contains ·) = declaredBy lines number :=
  contains_eq_of_mem_iff fun label => (h label).trans declaredBy_eq_true_iff.symm

/-- What the second pass does with a statement is decided by the labels that it refers to. -/
structure Statement.Decided (symbols : Symbols) (s : Statement) : Prop where
  present : (∀ name ∈ s.tokens.tail.filter Grammar.isReference, name ∈ symbols) →
    ∃ bound words, s.body.bind symbols = .ok bound ∧ bound.encode = .ok words
  missing : ∀ name, (s.tokens.tail.filter Grammar.isReference).find?
    (fun name => !symbols.contains name) = some name → s.body.bind symbols = .error (.labelMissing name)

theorem Layout.Describes.decided {evaluate : Evaluator} {declared : List (Nat × Text)}
    {written : List Written} {layout : Layout} (h : layout.Describes evaluate declared written)
    {s : Statement} (hs : s ∈ layout.statements) : s.Decided layout.symbols := by
  obtain ⟨symbols, p, hspelt, hbody, hextends, -⟩ := h.spelt s hs
  constructor
  · intro hpresent
    rw [← hspelt.labels_eq] at hpresent
    obtain ⟨bound, words, hbind, hencode, -⟩ :=
      Grammar.Phrase.bind_of_present hextends hspelt.named hpresent
    exact ⟨bound, words, hbody ▸ hbind, hencode⟩
  · intro name hmissing
    rw [← hspelt.labels_eq] at hmissing
    rw [hbody]
    exact Grammar.Phrase.bind_of_missing hextends hspelt.named hmissing

theorem Statement.Decided.labels_mem {symbols : Symbols} {s : Statement} (h : s.Decided symbols)
    {bound : Body} (hbind : s.body.bind symbols = .ok bound) :
    ∀ name ∈ s.tokens.tail.filter Grammar.isReference, name ∈ symbols := by
  apply Grammar.mem_of_find?_eq_none
  cases hfind : (s.tokens.tail.filter Grammar.isReference).find? (fun name => !symbols.contains name) with
  | none => rfl
  | some name =>
    rw [h.missing name hfind] at hbind
    contradiction

/-- The words of an entry are what its tokens mean: they spell one statement, and the words are
those of that statement with every label standing for its address. -/
theorem entry_words_eq_meaning {evaluate : Evaluator} {source : Source} {p : Program}
    (h : parse evaluate source = .ok p) {e : Program.Entry} (he : e ∈ p.entries) :
    ∃ phrase : Grammar.Phrase, (∀ other : Grammar.Phrase, other.Spelt evaluate e.tokens ↔ other = phrase) ∧
      phrase.words? p.symbols (declaredBy source.lines e.line) = some e.words := by
  obtain ⟨layout, hdescribes, hemitted, hsymbols⟩ := exists_layout_of_parse h
  obtain ⟨s, hs, hline, htokens, hemit⟩ := hemitted.exists_statement he
  obtain ⟨symbols, phrase, hspelt, hbody, hextends, hmem⟩ := hdescribes.spelt s (List.mem_reverse.1 hs)
  obtain ⟨bound, hbind, hencode⟩ := Body.emit_eq_ok_iff.1 hemit
  have hlabels := (hdescribes.decided (List.mem_reverse.1 hs)).labels_mem hbind
  rw [← hspelt.labels_eq] at hlabels
  obtain ⟨bound', words, hbind', hencode', hwords⟩ :=
    Grammar.Phrase.bind_of_present hextends hspelt.named hlabels
  rw [← hbody, hbind] at hbind'
  obtain rfl := Except.ok.inj hbind'
  obtain rfl : e.words = words := Except.ok.inj (hencode.symm.trans hencode')
  refine ⟨phrase, fun other => ⟨fun hother => ?_, ?_⟩, ?_⟩
  · exact Grammar.Phrase.Spelt.unique (htokens ▸ hother) hspelt
  · rintro rfl
    rwa [htokens]
  · -- The labels known when the statement was read are those of its line and the lines before.
    rw [hsymbols, hline, ← contains_eq_declaredBy hmem]
    exact hwords

theorem entry_words_eq_meaning_loopSource :
    ∃ p, parse Constant.closed loopSource = .ok p ∧
      ∃ e ∈ p.entries, e.words = [0x7c01, 6] ∧
        ∃ phrase : Grammar.Phrase, phrase.Spelt Constant.closed e.tokens ∧
        phrase.words? p.symbols (declaredBy loopSource.lines e.line) = some [0x7c01, 6] := by
  obtain ⟨p, hp, hentries⟩ := map_eq_ok_iff.1 map_words_loopSource
  have hmem : [0x7c01, 6] ∈ p.entries.map (·.words) := hentries ▸ List.mem_cons_self ..
  obtain ⟨e, he, hwords⟩ := List.mem_map.1 hmem
  obtain ⟨phrase, hspelt, hmeaning⟩ := entry_words_eq_meaning hp he
  exact ⟨p, hp, e, he, hwords, phrase, (hspelt phrase).2 rfl, hwords ▸ hmeaning⟩

structure Reference where
  line : Nat
  text : Text
  label : Text
  deriving DecidableEq, Repr

def Written.references (w : Written) : List Reference :=
  (w.tokens.tail.filter Grammar.isReference).map (⟨w.line, w.text, ·⟩)

def references (lines : List Text) : List Reference := (statements lines).flatMap Written.references

def isDeclared (lines : List Text) (label : Text) : Bool := (declarations lines).any (·.2 == label)

theorem isDeclared_eq_true_iff {lines : List Text} {label : Text} :
    isDeclared lines label = true ↔ ∃ number, (number, label) ∈ declarations lines := by
  simp [isDeclared]

theorem Statement.find?_references (symbols : Symbols) (s : Statement) :
    s.written.references.find? (fun r => !symbols.contains r.label) =
      ((s.tokens.tail.filter Grammar.isReference).find? (fun name => !symbols.contains name)).map
        (⟨s.line, s.text, ·⟩) := by
  rw [Written.references, List.find?_map]
  rfl

section
variable {symbols : Symbols} {address : Nat} {done : List Program.Entry} {ss : List Statement}

theorem emitFrom_of_missing (h : ∀ s ∈ ss, s.Decided symbols) {r : Reference}
    (hr : ((ss.map Statement.written).flatMap Written.references).find?
      (fun r => !symbols.contains r.label) = some r) :
    emitFrom symbols address done ss = .error ⟨r.line, r.text, .labelMissing r.label⟩ := by
  induction ss generalizing address done with
  | nil => contradiction
  | cons s rest ih =>
    have hs := h s (List.mem_cons_self ..)
    -- The first missing label of this statement, if it has one, is the first of all.
    rw [List.map_cons, List.flatMap_cons, List.find?_append, s.find?_references] at hr
    rw [emitFrom]
    cases hfind : (s.tokens.tail.filter Grammar.isReference).find?
        (fun name => !symbols.contains name) with
    | some name =>
      rw [hfind] at hr
      obtain rfl := Option.some.inj hr
      rw [Body.emit_eq, hs.missing name hfind]
      rfl
    | none =>
      rw [hfind, Option.map_none, Option.none_or] at hr
      obtain ⟨bound, words, hbind, hencode⟩ := hs.present (Grammar.mem_of_find?_eq_none hfind)
      rw [Body.emit_eq_ok_iff.2 ⟨bound, hbind, hencode⟩]
      exact ih (fun s hs => h s (List.mem_cons_of_mem _ hs)) hr

theorem exists_emitFrom_of_present (h : ∀ s ∈ ss, s.Decided symbols)
    (hr : ((ss.map Statement.written).flatMap Written.references).find?
      (fun r => !symbols.contains r.label) = none) :
    ∃ entries, emitFrom symbols address done ss = .ok entries := by
  induction ss generalizing address done with
  | nil => exact ⟨_, rfl⟩
  | cons s rest ih =>
    have hs := h s (List.mem_cons_self ..)
    rw [List.map_cons, List.flatMap_cons, List.find?_append, s.find?_references,
      Option.or_eq_none_iff, Option.map_eq_none_iff] at hr
    obtain ⟨bound, words, hbind, hencode⟩ := hs.present (Grammar.mem_of_find?_eq_none hr.1)
    rw [emitFrom, Body.emit_eq_ok_iff.2 ⟨bound, hbind, hencode⟩]
    exact ih (fun s hs => h s (List.mem_cons_of_mem _ hs)) hr.2

end

theorem Layout.emit_eq_error_iff {layout : Layout}
    (h : ∀ s ∈ layout.statements, s.Decided layout.symbols) {e : SyntaxError} :
    layout.emit = .error e ↔
      ∃ r, ((layout.statements.reverse.map Statement.written).flatMap Written.references).find?
        (fun r => !layout.symbols.contains r.label) = some r ∧
          e = ⟨r.line, r.text, .labelMissing r.label⟩ := by
  have hdecided : ∀ s ∈ layout.statements.reverse, s.Decided layout.symbols :=
    fun s hs => h s (List.mem_reverse.1 hs)
  rw [Layout.emit]
  cases hfind : ((layout.statements.reverse.map Statement.written).flatMap Written.references).find?
      (fun r => !layout.symbols.contains r.label) with
  | some r =>
    rw [emitFrom_of_missing hdecided hfind]
    constructor
    · intro he
      exact ⟨r, rfl, (Except.error.inj he).symm⟩
    · rintro ⟨r', hr, rfl⟩
      obtain rfl := Option.some.inj hr
      rfl
  | none =>
    obtain ⟨entries, hentries⟩ := exists_emitFrom_of_present hdecided hfind
    rw [hentries]
    constructor
    · intro he
      contradiction
    · rintro ⟨r, hr, -⟩
      contradiction

/-- Once the first pass is through, a program can only fail at a label that is not declared. No
statement whose labels have addresses fails to be encoded or comes out in another size than the
one it was laid out with, and of several missing labels the first one in reading order is reported. -/
theorem parse_eq_error_iff_of_layout {evaluate : Evaluator} {source : Source} {layout : Layout}
    (h : Layout.ofSource evaluate source = .ok layout) :
    (∀ s ∈ layout.statements, ∀ bound, s.body.bind layout.symbols = .ok bound →
      ∃ words, bound.encode = .ok words ∧ s.body.emit layout.symbols = .ok words ∧
        words.length = bound.size ∧ words.length = s.body.size) ∧
      (∀ e, parse evaluate source = .error e ↔
        ∃ r, (references source.lines).find? (fun r => !isDeclared source.lines r.label) = some r ∧
          e = ⟨r.line, r.text, .labelMissing r.label⟩) ∧
      ((∃ e, parse evaluate source = .error e) ↔
        ∃ r ∈ references source.lines, isDeclared source.lines r.label = false) := by
  have hdescribes := Layout.describes_of_ofSource h
  have hdeclared : (fun r : Reference => !layout.symbols.contains r.label) =
      (fun r : Reference => !isDeclared source.lines r.label) := by
    funext r
    congr 1
    rw [Bool.eq_iff_iff, isDeclared_eq_true_iff, ← hdescribes.mem_symbols r.label,
      Std.TreeMap.mem_iff_contains]
  have herror : ∀ e, parse evaluate source = .error e ↔
      ∃ r, (references source.lines).find? (fun r => !isDeclared source.lines r.label) = some r ∧
        e = ⟨r.line, r.text, .labelMissing r.label⟩ := by
    intro e
    rw [parse, h, references, ← hdescribes.written_eq, ← hdeclared]
    exact Layout.emit_eq_error_iff fun s hs => hdescribes.decided hs
  refine ⟨?_, herror, ?_⟩
  · intro s hs bound hbind
    have hlabels := (hdescribes.decided hs).labels_mem hbind
    obtain ⟨bound', words, hbind', hencode⟩ := (hdescribes.decided hs).present hlabels
    obtain rfl := Except.ok.inj (hbind.symm.trans hbind')
    have hlength := Body.length_of_encode hencode
    exact ⟨words, hencode, Body.emit_eq_ok_iff.2 ⟨bound, hbind, hencode⟩, hlength,
      hlength.trans (Body.size_of_bind hbind)⟩
  · constructor
    · rintro ⟨e, he⟩
      obtain ⟨r, hr, -⟩ := (herror e).1 he
      exact ⟨r, List.mem_of_find?_eq_some hr, by simpa using List.find?_some hr⟩
    · rintro ⟨r, hmem, hmissing⟩
      have hsome : ((references source.lines).find? fun r => !isDeclared source.lines r.label).isSome :=
        List.find?_isSome.2 ⟨r, hmem, by simpa using hmissing⟩
      obtain ⟨first, hfirst⟩ := Option.isSome_iff_exists.1 hsome
      exact ⟨_, (herror _).2 ⟨first, hfirst, rfl⟩⟩

def danglingSource : Source :=
  Source.ofText (ascii ":loop SET A, loop\nSET [later], gone\nSET gone, loop")

theorem parse_eq_error_danglingSource :
    (∃ layout, Layout.ofSource Constant.closed danglingSource = .ok layout) ∧
      parse Constant.closed danglingSource =
        .error ⟨2, ascii "SET [later], gone", .labelMissing (ascii "later")⟩ := by
  have hok : (Layout.ofSource Constant.closed danglingSource).map Layout.address = .ok 6 := by decide +kernel
  obtain ⟨layout, hlayout, -⟩ := map_eq_ok_iff.1 hok
  refine ⟨⟨layout, hlayout⟩, ((parse_eq_error_iff_of_layout hlayout).2.1 _).2 ?_⟩
  exact ⟨⟨2, ascii "SET [later], gone", ascii "later"⟩, by decide +kernel, rfl⟩

end Asm16.Assembly
