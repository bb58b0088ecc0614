import Asm16.Proofs.Continuation
import Asm16.Proofs.Reassembly

/-! Assembly with the addresses of all labels given in advance. One pass over the lines is then enough: a
line declares its labels at the address reached so far, and its statement gives the words that it means.
A source assembles if and only if this pass agrees with some table of addresses, and the program is then
the one that the two passes arrive at. What is to be shown of two sources that are almost alike is shown
on the single pass, where nothing has to be filled in later. -/

namespace Asm16

theorem mem_symbols_iff {symbols : Symbols} {label : Text} :
    label ∈ symbols ↔ ∃ address, symbols[label]? = some address := by
  rw [Std.TreeMap.mem_iff_isSome_getElem?, Option.isSome_iff_exists]

/-! ### Words -/

namespace Grammar
open Assembly

section
variable {final : Symbols}

theorem Atom.mem_of_word? {a : Atom} {word : UInt16} (h : a.word? final = some word) :
    ∀ name ∈ a.labels, name ∈ final := by
  intro name hname
  cases a with
  | number w => simp [Atom.labels] at hname
  | label label =>
    obtain rfl : name = label := by simpa [Atom.labels] using hname
    exact mem_symbols_iff.2 ⟨word, h⟩

theorem Term.mem_of_code? {t : Term} {early : Text → Bool} {field : Nat} {literals : List UInt16}
    (h : t.code? final early = some (field, literals)) : ∀ name ∈ t.labels, name ∈ final := by
  cases t with
  | register reg | special sp | indirect reg => simp [Term.labels]
  | offset reg a | memory a | bare a =>
    obtain ⟨word, hword, -⟩ := Option.map_eq_some_iff.1 h
    exact Atom.mem_of_word? hword

theorem mem_of_mapM_word? {values : List Atom} {words : List UInt16}
    (h : values.mapM (Atom.word? final) = some words) :
    ∀ name ∈ values.flatMap Atom.labels, name ∈ final := by
  induction values generalizing words with
  | nil => simp
  | cons a rest ih =>
    rw [List.mapM_cons] at h
    obtain ⟨word, hword, hmore⟩ := Option.bind_eq_some_iff.1 h
    obtain ⟨more, hrest, -⟩ := Option.bind_eq_some_iff.1 hmore
    intro name hname
    rcases List.mem_append.1 (List.flatMap_cons ▸ hname) with hfirst | hlater
    · exact Atom.mem_of_word? hword name hfirst
    · exact ih hrest name hlater

theorem Phrase.words?_basic_eq_some_iff {op : BasicOp} {a b : Term} {early : Text → Bool}
    {words : List UInt16} :
    (Phrase.basic op a b).words? final early = some words ↔ ∃ fieldA literalsA fieldB literalsB,
      a.code? final early = some (fieldA, literalsA) ∧ b.code? final early = some (fieldB, literalsB) ∧
        words = UInt16.ofNat (fieldB * 1024 + fieldA * 16 + op.code.toNat) :: (literalsA ++ literalsB) := by
  rw [Phrase.words?]
  cases a.code? final early with
  | none => simp
  | some codeA =>
    obtain ⟨fieldA, literalsA⟩ := codeA
    cases b.code? final early with
    | none => simp
    | some codeB =>
      obtain ⟨fieldB, literalsB⟩ := codeB
      constructor
      · intro h
        exact ⟨fieldA, literalsA, fieldB, literalsB, rfl, rfl, (Option.some.inj h).symm⟩
      · rintro ⟨_, _, _, _, ha, hb, rfl⟩
        obtain ⟨rfl, rfl⟩ := Prod.mk.inj (Option.some.inj ha)
        obtain ⟨rfl, rfl⟩ := Prod.mk.inj (Option.some.inj hb)
        rfl

theorem Phrase.mem_of_words? {p : Phrase} {early : Text → Bool} {words : List UInt16}
    (h : p.words? final early = some words) : ∀ name ∈ p.labels, name ∈ final := by
  cases p with
  | data values => exact mem_of_mapM_word? h
  | nonBasic op a =>
    obtain ⟨code, hcode, -⟩ := Option.map_eq_some_iff.1 h
    exact Term.mem_of_code? hcode
  | basic op a b =>
    obtain ⟨fieldA, literalsA, fieldB, literalsB, ha, hb, -⟩ := Phrase.words?_basic_eq_some_iff.1 h
    intro name hname
    rcases List.mem_append.1 hname with hleft | hright
    · exact Term.mem_of_code? ha name hleft
    · exact Term.mem_of_code? hb name hright

theorem Phrase.emit_eq_ok_iff {symbols : Symbols} (hext : Extends symbols final) {p : Phrase}
    (hnamed : p.Named) {words : List UInt16} :
    (p.body symbols).emit final = .ok words ↔ p.words? final (symbols.contains ·) = some words := by
  cases hfind : p.labels.find? (fun name => !final.contains name) with
  | some name =>
    have hbind := Phrase.bind_of_missing hext hnamed hfind
    obtain ⟨hmem, hnone⟩ := getElem?_eq_none_of_find? hfind
    constructor
    · intro hemit
      obtain ⟨bound, hbound, -⟩ := Body.emit_eq_ok_iff.1 hemit
      rw [hbind] at hbound
      contradiction
    · intro hwords
      have hpresent := Phrase.mem_of_words? hwords name hmem
      rw [Std.TreeMap.mem_iff_isSome_getElem?, hnone] at hpresent
      contradiction
  | none =>
    obtain ⟨bound, meant, hbind, hencode, hmeant⟩ :=
      Phrase.bind_of_present hext hnamed (mem_of_find?_eq_none hfind)
    rw [Body.emit_eq_ok_iff.2 ⟨bound, hbind, hencode⟩, hmeant]
    simp

end
end Grammar

namespace Assembly

/-! ### The pass -/

structure Places (final : Symbols) (address : Nat) (known labels : List Text) : Prop where
  valid : ∀ label ∈ labels, isLabel label = true ∧ isReserved label = false
  nodup : labels.Nodup
  fresh : ∀ label ∈ labels, label ∉ known
  fits : labels ≠ [] → address < memorySize
  address_eq : ∀ label ∈ labels, final[label]? = some (UInt16.ofNat address)

/-- One pass over the tokens of lines, from a line number and an address on. A label is compact in a
statement if it is among those known there, which are the ones declared up to the end of its line. -/
inductive OnePass (evaluate : Evaluator) (final : Symbols) :
    Nat → Nat → List Text → List (List Text) → List Program.Entry → Prop
  | nil (number address : Nat) (known : List Text) : OnePass evaluate final number address known [] []
  | labels {number address : Nat} {known row : List Text} {rest : List (List Text)}
    {entries : List Program.Entry} (hplaces : Places final address known (lineLabels row))
    (hnone : lineStatement row = [])
    (hrest : OnePass evaluate final (number + 1) address (known ++ lineLabels row) rest entries) :
    OnePass evaluate final number address known (row :: rest) entries
  | statement {number address : Nat} {known row : List Text} {rest : List (List Text)}
    {entries : List Program.Entry} {p : Grammar.Phrase} {words : List UInt16}
    (hplaces : Places final address known (lineLabels row))
    (hspelt : p.Spelt evaluate (lineStatement row))
    (hwords : p.words? final (fun label => decide (label ∈ known ++ lineLabels row)) = some words)
    (hfits : address + words.length ≤ memorySize)
    (hrest : OnePass evaluate final (number + 1) (address + words.length) (known ++ lineLabels row) rest
      entries) :
    OnePass evaluate final number address known (row :: rest)
      (⟨number, address, lineStatement row, words⟩ :: entries)

/-- The pass over a whole source, with a table that has the labels of the source and no others. -/
structure Assembles (evaluate : Evaluator) (rows : List (List Text)) (final : Symbols)
    (entries : List Program.Entry) : Prop where
  pass : OnePass evaluate final 1 0 [] rows entries
  mem_iff : ∀ label : Text, label ∈ final ↔ label ∈ rows.flatMap lineLabels

theorem Places.mem {final : Symbols} {address : Nat} {known labels : List Text}
    (h : Places final address known labels) {label : Text} (hlabel : label ∈ labels) : label ∈ final :=
  mem_symbols_iff.2 ⟨_, h.address_eq label hlabel⟩

/-! ### Layouts on the way -/

structure Layout.Towards (final : Symbols) (known : List Text) (layout : Layout) : Prop where
  mem_symbols : ∀ label : Text, label ∈ layout.symbols ↔ label ∈ known
  extends_symbols : Extends layout.symbols final

namespace Layout

theorem towards_start (final : Symbols) : start.Towards final [] where
  mem_symbols := by simp [start]
  extends_symbols := by
    intro label address h
    simp [start] at h

theorem Towards.contains_eq {final : Symbols} {known : List Text} {layout : Layout}
    (h : layout.Towards final known) : (layout.symbols.contains ·) = fun label => decide (label ∈ known) := by
  funext label
  rw [Bool.eq_iff_iff, decide_eq_true_eq, ← h.mem_symbols, Std.TreeMap.mem_iff_contains]

theorem Towards.declare {final : Symbols} {known labels : List Text} {layout : Layout}
    (h : layout.Towards final known) (hplaces : Places final layout.address known labels) {symbols : Symbols}
    (hdeclares : Declares layout.address layout.symbols symbols labels) (address : Nat)
    (statements : List Statement) :
    Towards final (known ++ labels) ⟨symbols, address, statements⟩ where
  mem_symbols := by
    intro label
    rw [hdeclares.mem_iff, h.mem_symbols, List.mem_append]
  extends_symbols := by
    intro label found hfound
    change symbols[label]? = some found at hfound
    rw [hdeclares.lookup] at hfound
    by_cases hlabel : label ∈ labels
    · rw [if_pos hlabel] at hfound
      rw [← hfound]
      exact hplaces.address_eq label hlabel
    · rw [if_neg hlabel] at hfound
      exact h.extends_symbols label found hfound

theorem exists_declare {address : Nat} {symbols : Symbols} {tokens : List Text}
    (hend : lineStatement tokens ≠ [colonToken])
    (hvalid : ∀ label ∈ lineLabels tokens, isLabel label = true ∧ isReserved label = false)
    (hnodup : (lineLabels tokens).Nodup) (hfresh : ∀ label ∈ lineLabels tokens, label ∉ symbols)
    (hfits : lineLabels tokens ≠ [] → address < memorySize) :
    ∃ next, declare address symbols tokens = .ok (next, lineStatement tokens) := by
  fun_induction declare address symbols tokens with
  | case1 symbols => exact ⟨symbols, rfl⟩
  | case2 symbols => exact absurd rfl hend
  | case3 symbols token hcolon => exact ⟨symbols, rfl⟩
  | case4 symbols label rest hlabel =>
    have hfirst := (hvalid label (by simp [lineLabels])).1
    simp [hfirst] at hlabel
  | case5 symbols label rest hlabel hreserved =>
    have hfirst := (hvalid label (by simp [lineLabels])).2
    simp [hfirst] at hreserved
  | case6 symbols label rest hlabel hreserved hknown =>
    exact absurd (Std.TreeMap.mem_iff_contains.2 hknown) (hfresh label (by simp [lineLabels]))
  | case7 symbols label rest hlabel hreserved hknown hfull =>
    have hroom := hfits (by simp [lineLabels])
    omega
  | case8 symbols label rest hlabel hreserved hknown hroom ih =>
    simp only [lineLabels, lineStatement, if_true, List.mem_cons, List.nodup_cons] at hend hvalid hnodup hfresh ⊢
    obtain ⟨hlabelFresh, hrestNodup⟩ := hnodup
    apply ih hend (fun other hother => hvalid other (.inr hother)) hrestNodup
    · intro other hother hmem
      rcases Std.TreeMap.mem_insert.1 hmem with heq | hmem
      · have hsame : label = other := by simpa using heq
        exact hlabelFresh (hsame ▸ hother)
      · exact hfresh other (.inr hother) hmem
    · intro _
      omega
  | case9 symbols token label rest hcolon =>
    refine ⟨symbols, ?_⟩
    rw [lineStatement, if_neg hcolon]

end Layout

/-! ### From the two passes to the one -/

section
variable {evaluate : Evaluator}

theorem places_of_declares {final symbols next : Symbols} {address : Nat} {known labels : List Text}
    (hknown : ∀ label ∈ known, label ∈ symbols) (h : Declares address symbols next labels)
    (hext : Extends next final) : Places final address known labels where
  valid := h.valid
  nodup := h.nodup
  fresh := fun label hlabel hmem => h.fresh label hlabel (hknown label hmem)
  fits := h.fits
  address_eq := by
    intro label hlabel
    apply hext
    rw [h.lookup, if_pos hlabel]

theorem onePass_of_addLines {number : Nat} {layout last : Layout} {lines known : List Text}
    (h : layout.addLines evaluate number lines = .ok last)
    (hknown : ∀ label : Text, label ∈ layout.symbols ↔ label ∈ known) :
    ∃ new, last.statements.reverse = layout.statements.reverse ++ new ∧
      ∀ entries, Emitted last.symbols layout.address new entries →
        OnePass evaluate last.symbols number layout.address known (lines.map Token.ofLine) entries := by
  induction lines generalizing number layout known with
  | nil =>
    obtain rfl := Except.ok.inj h
    refine ⟨[], (List.append_nil _).symm, fun entries hentries => ?_⟩
    cases hentries
    exact .nil number layout.address known
  | cons line rest ih =>
    rw [Layout.addLines] at h
    split at h
    · contradiction
    · rename_i next hnext
      have hext : Extends next.symbols last.symbols := (Layout.Grows.of_addLines h).extends_symbols
      obtain ⟨symbols, hdeclares, hcases⟩ := Layout.addLine_cases hnext
      have hplaces := fun hext : Extends symbols last.symbols =>
        places_of_declares (fun label => (hknown label).2) hdeclares hext
      have hmem : ∀ label : Text, label ∈ symbols ↔ label ∈ known ++ lineLabels (Token.ofLine line) := by
        intro label
        rw [hdeclares.mem_iff, hknown, List.mem_append]
      rcases hcases with ⟨hnone, rfl⟩ | ⟨mnemonic, tokens, p, hsome, hspelt, hfits, rfl⟩
      · obtain ⟨new, hnew, hpass⟩ := ih h hmem
        exact ⟨new, hnew, fun entries hentries =>
          .labels (hplaces hext) hnone (hpass entries hentries)⟩
      · obtain ⟨new, hnew, hpass⟩ := ih h hmem
        refine ⟨_ :: new, by rw [hnew, List.reverse_cons, List.append_assoc]; rfl, ?_⟩
        intro entries hentries
        cases hentries with
        | cons hemit hrest =>
          have hsize := Body.length_of_emit hemit
          have hwords := (Grammar.Phrase.emit_eq_ok_iff hext hspelt.named).1 hemit
          -- The statement was read with the labels of its own line declared already.
          have hearly : (symbols.contains ·) =
              fun label => decide (label ∈ known ++ lineLabels (Token.ofLine line)) :=
            contains_eq_of_mem_iff fun label => (hmem label).trans decide_eq_true_iff.symm
          rw [hearly] at hwords
          rw [← hsome] at hspelt ⊢
          rw [← hsize] at hfits
          refine .statement (hplaces hext) hspelt hwords hfits ?_
          rw [hsize] at hrest ⊢
          exact hpass _ hrest

theorem mem_declarations_iff {lines : List Text} {number : Nat} {label : Text} :
    (number, label) ∈ declarations lines ↔
      ∃ i line, number = 1 + i ∧ lines[i]? = some line ∧ label ∈ lineLabels (Token.ofLine line) := by
  rw [declarations, List.mem_flatMap]
  constructor
  · rintro ⟨⟨line, n⟩, hmem, hlabel⟩
    obtain ⟨other, hother, heq⟩ := List.mem_map.1 hlabel
    obtain ⟨rfl, rfl⟩ := Prod.mk.inj heq
    obtain ⟨hle, hline⟩ := List.mk_mem_zipIdx_iff_le_and_getElem?_sub.1 hmem
    exact ⟨n - 1, line, by omega, hline, hother⟩
  · rintro ⟨i, line, rfl, hline, hlabel⟩
    exact ⟨(line, 1 + i), List.mk_add_mem_zipIdx_iff_getElem?.2 hline, List.mem_map.2 ⟨label, hlabel, rfl⟩⟩

theorem mem_flatMap_lineLabels_iff {lines : List Text} {label : Text} :
    label ∈ (lines.map Token.ofLine).flatMap lineLabels ↔ ∃ number, (number, label) ∈ declarations lines := by
  rw [List.flatMap_map, List.mem_flatMap]
  constructor
  · rintro ⟨line, hline, hlabel⟩
    obtain ⟨i, hi⟩ := List.mem_iff_getElem?.1 hline
    exact ⟨1 + i, mem_declarations_iff.2 ⟨i, line, rfl, hi, hlabel⟩⟩
  · rintro ⟨number, hmem⟩
    obtain ⟨i, line, -, hi, hlabel⟩ := mem_declarations_iff.1 hmem
    exact ⟨line, List.mem_of_getElem? hi, hlabel⟩

/-- An assembled program is what the single pass gives with the addresses of its own labels. -/
theorem assembles_of_parse {source : Source} {p : Program} (h : parse evaluate source = .ok p) :
    Assembles evaluate (source.lines.map Token.ofLine) p.symbols p.entries := by
  obtain ⟨layout, hlayout, hemitted, hsymbols⟩ := exists_addLines_of_parse h
  obtain ⟨new, hnew, hpass⟩ := onePass_of_addLines hlayout (Layout.towards_start ∅).mem_symbols
  constructor
  · rw [hsymbols]
    rw [hnew] at hemitted
    exact hpass _ hemitted
  · intro label
    rw [hsymbols, mem_flatMap_lineLabels_iff]
    exact (Layout.describes_of_addLines hlayout).mem_symbols label

/-! ### From the one pass to the two -/

theorem emitFrom_of_emitted {symbols : Symbols} {address : Nat} {ss : List Statement}
    {entries : List Program.Entry} (h : Emitted symbols address ss entries) (done : List Program.Entry) :
    emitFrom symbols address done ss = .ok (done.reverse ++ entries) := by
  induction h generalizing done with
  | nil => rw [emitFrom, List.append_nil]
  | cons hwords _ ih =>
    rw [emitFrom, hwords]
    simp only [ih, List.reverse_cons, List.append_assoc]
    rfl

theorem Emitted.of_extends {symbols final : Symbols} (hext : Extends symbols final) {address : Nat}
    {ss : List Statement} {entries : List Program.Entry} (h : Emitted symbols address ss entries) :
    Emitted final address ss entries := by
  induction h with
  | nil address => exact .nil address
  | cons hwords _ ih => exact .cons (Body.emit_of_extends hext hwords) ih

namespace Layout

variable {final : Symbols} {known : List Text} {layout : Layout}

theorem Towards.exists_declare {row : List Text} (h : layout.Towards final known)
    (hplaces : Places final layout.address known (lineLabels row)) (hend : lineStatement row ≠ [colonToken]) :
    ∃ symbols, Layout.declare layout.address layout.symbols row = .ok (symbols, lineStatement row) ∧
      Declares layout.address layout.symbols symbols (lineLabels row) := by
  have hfresh : ∀ label ∈ lineLabels row, label ∉ layout.symbols :=
    fun label hlabel hmem => hplaces.fresh label hlabel ((h.mem_symbols label).1 hmem)
  obtain ⟨symbols, hdeclare⟩ := Layout.exists_declare hend hplaces.valid hplaces.nodup hfresh hplaces.fits
  exact ⟨symbols, hdeclare, (declares_of_declare hdeclare).2⟩

theorem Towards.addLine_labels {number : Nat} {line : Text} (h : layout.Towards final known)
    (hplaces : Places final layout.address known (lineLabels (Token.ofLine line)))
    (hnone : lineStatement (Token.ofLine line) = []) :
    ∃ symbols, layout.addLine evaluate number line = .ok ⟨symbols, layout.address, layout.statements⟩ ∧
      Towards final (known ++ lineLabels (Token.ofLine line))
        ⟨symbols, layout.address, layout.statements⟩ := by
  obtain ⟨symbols, hdeclare, hdeclares⟩ := h.exists_declare hplaces (by simp [hnone])
  refine ⟨symbols, ?_, h.declare hplaces hdeclares _ _⟩
  rw [addLine, hdeclare, hnone]

theorem Towards.addLine_statement {number : Nat} {line : Text} {p : Grammar.Phrase} {words : List UInt16}
    (h : layout.Towards final known)
    (hplaces : Places final layout.address known (lineLabels (Token.ofLine line)))
    (hspelt : p.Spelt evaluate (lineStatement (Token.ofLine line)))
    (hwords : p.words? final (fun label => decide (label ∈ known ++ lineLabels (Token.ofLine line))) =
      some words)
    (hfits : layout.address + words.length ≤ memorySize) :
    ∃ symbols body, body.emit final = .ok words ∧
      layout.addLine evaluate number line = .ok ⟨symbols, layout.address + words.length,
        ⟨number, line, lineStatement (Token.ofLine line), body⟩ :: layout.statements⟩ ∧
      ∀ statements, Towards final (known ++ lineLabels (Token.ofLine line))
        ⟨symbols, layout.address + words.length, statements⟩ := by
  obtain ⟨mnemonic, rest, hrow⟩ : ∃ mnemonic rest, lineStatement (Token.ofLine line) = mnemonic :: rest := by
    cases hrow : lineStatement (Token.ofLine line) with
    | nil =>
      rw [hrow] at hspelt
      cases hspelt
    | cons mnemonic rest => exact ⟨mnemonic, rest, rfl⟩
  have hcolon : mnemonic ≠ colonToken := head_ne_colon_of_spelt (hrow ▸ hspelt)
  have hend : lineStatement (Token.ofLine line) ≠ [colonToken] := by
    rw [hrow]
    intro heq
    exact hcolon (List.cons.inj heq).1
  obtain ⟨symbols, hdeclare, hdeclares⟩ := h.exists_declare hplaces hend
  have htowards := fun statements =>
    h.declare hplaces hdeclares (layout.address + words.length) statements
  -- The labels that make a statement compact are those of the table reached on this line.
  have hemit : (p.body symbols).emit final = .ok words := by
    rw [Grammar.Phrase.emit_eq_ok_iff (htowards []).extends_symbols hspelt.named, ← hwords]
    exact congrArg (p.words? final) (htowards []).contains_eq
  have hsize := Body.length_of_emit hemit
  have hstatement := Grammar.statement_of_spelt (hrow ▸ hspelt) symbols
  refine ⟨symbols, p.body symbols, hemit, ?_, htowards⟩
  rw [hrow] at hdeclare ⊢
  rw [addLine, hdeclare]
  simp only [hstatement]
  rw [if_neg (by omega), hsize]

end Layout

theorem exists_addLines_of_onePass {final : Symbols} {number address : Nat} {known : List Text}
    {rows : List (List Text)} {entries : List Program.Entry}
    (h : OnePass evaluate final number address known rows entries) {lines : List Text} {layout : Layout}
    (hrows : lines.map Token.ofLine = rows) (haddress : layout.address = address)
    (htowards : layout.Towards final known) :
    ∃ last new, layout.addLines evaluate number lines = .ok last ∧
      last.statements.reverse = layout.statements.reverse ++ new ∧
      last.Towards final (known ++ rows.flatMap lineLabels) ∧ Emitted final address new entries := by
  induction h generalizing lines layout with
  | nil number address known =>
    obtain rfl := List.map_eq_nil_iff.1 hrows
    rw [List.flatMap_nil, List.append_nil]
    exact ⟨layout, [], rfl, (List.append_nil _).symm, htowards, .nil address⟩
  | labels hplaces hnone hrest ih =>
    obtain ⟨line, rest, rfl, rfl, hrest'⟩ := List.map_eq_cons_iff.1 hrows
    subst haddress
    obtain ⟨symbols, hline, hnext⟩ := htowards.addLine_labels hplaces hnone
    obtain ⟨last, new, hlines, hnew, hlast, hemitted⟩ := ih hrest' (by rfl) hnext
    rw [List.flatMap_cons, ← List.append_assoc]
    refine ⟨last, new, ?_, hnew, hlast, hemitted⟩
    rw [Layout.addLines, hline]
    exact hlines
  | @statement number _ _ _ _ _ _ _ hplaces hspelt hwords hfits hrest ih =>
    obtain ⟨line, rest, rfl, rfl, hrest'⟩ := List.map_eq_cons_iff.1 hrows
    subst haddress
    obtain ⟨symbols, body, hemit, hline, hnext⟩ := htowards.addLine_statement hplaces hspelt hwords hfits
    obtain ⟨last, new, hlines, hnew, hlast, hemitted⟩ := ih hrest' (by rfl) (hnext _)
    rw [List.flatMap_cons, ← List.append_assoc]
    refine ⟨last, ⟨number, line, lineStatement (Token.ofLine line), body⟩ :: new, ?_, ?_, hlast,
      .cons hemit hemitted⟩
    · rw [Layout.addLines, hline]
      exact hlines
    · rw [hnew, List.reverse_cons, List.append_assoc]
      rfl

/-- A table of addresses with which the single pass agrees is the one that the first pass finds, and the
second pass emits what the single one gives. -/
theorem exists_parse_of_assembles {source : Source} {final : Symbols} {entries : List Program.Entry}
    (hstop : source.stop = none)
    (h : Assembles evaluate (source.lines.map Token.ofLine) final entries) :
    ∃ q, parse evaluate source = .ok q ∧ q.entries = entries ∧
      ∀ label : Text, q.symbols[label]? = final[label]? := by
  obtain ⟨last, new, hlines, hnew, hlast, hemitted⟩ :=
    exists_addLines_of_onePass h.pass rfl rfl (Layout.towards_start final)
  -- The first pass has found every label of the table, so that the two tables agree throughout.
  have hlookup : ∀ label : Text, last.symbols[label]? = final[label]? := by
    intro label
    cases hfound : last.symbols[label]? with
    | some address => exact (hlast.extends_symbols label address hfound).symm
    | none =>
      have hnot : label ∉ last.symbols := by
        rw [Std.TreeMap.mem_iff_isSome_getElem?, hfound]
        simp
      rw [hlast.mem_symbols, List.nil_append, ← h.mem_iff] at hnot
      exact (Std.TreeMap.getElem?_eq_none hnot).symm
  have hext : Extends final last.symbols := fun label address hfound => (hlookup label).trans hfound
  have hemit := emitFrom_of_emitted (hemitted.of_extends hext) []
  refine ⟨⟨entries, last.symbols⟩, ?_, rfl, hlookup⟩
  have hstatements : last.statements.reverse = new := hnew
  rw [parse, Layout.ofSource, hlines, hstop]
  simp only [Layout.emit, hstatements, hemit]
  rfl

end
end Assembly
end Asm16
