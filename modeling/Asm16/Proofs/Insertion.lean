import Asm16.Proofs.Rewriting

/-! A line without a statement put into a source. It moves the lines after it down by one and leaves their
addresses alone, and the labels that it declares get the address of the place where it was put. Labels that
are new to a source change nothing else, since no statement can refer to them. -/

namespace Asm16.Assembly

section
variable {evaluate : Evaluator} {final final' : Symbols}

theorem OnePass.append {number address : Nat} {known : List Text} {before after : List (List Text)}
    {first second : List Program.Entry} (hfirst : OnePass evaluate final number address known before first)
    (hsecond : OnePass evaluate final (number + before.length)
      (address + (first.flatMap (·.words)).length) (known ++ before.flatMap lineLabels) after second) :
    OnePass evaluate final number address known (before ++ after) (first ++ second) := by
  induction hfirst with
  | nil number address known => simpa using hsecond
  | labels hplaces hnone _ ih =>
    refine .labels hplaces hnone (ih ?_)
    rw [List.length_cons, List.flatMap_cons, ← List.append_assoc, Nat.add_comm (List.length _) 1,
      ← Nat.add_assoc] at hsecond
    exact hsecond
  | statement hplaces hspelt hwords hfits _ ih =>
    refine .statement hplaces hspelt hwords hfits (ih ?_)
    rw [List.length_cons, List.flatMap_cons, List.flatMap_cons, ← List.append_assoc, List.length_append,
      Nat.add_comm (List.length _) 1, ← Nat.add_assoc, ← Nat.add_assoc] at hsecond
    exact hsecond

theorem OnePass.split {number address : Nat} {known : List Text} {before after : List (List Text)}
    {entries : List Program.Entry} (h : OnePass evaluate final number address known (before ++ after) entries) :
    ∃ first second, entries = first ++ second ∧
      OnePass evaluate final number address known before first ∧
      OnePass evaluate final (number + before.length) (address + (first.flatMap (·.words)).length)
        (known ++ before.flatMap lineLabels) after second := by
  induction before generalizing number address known entries with
  | nil => exact ⟨[], entries, rfl, .nil number address known, by simpa using h⟩
  | cons row rest ih =>
    cases h with
    | labels hplaces hnone hrest =>
      obtain ⟨first, second, rfl, hfirst, hsecond⟩ := ih hrest
      refine ⟨first, second, rfl, .labels hplaces hnone hfirst, ?_⟩
      rw [List.length_cons, List.flatMap_cons, ← List.append_assoc, Nat.add_comm (List.length _) 1,
        ← Nat.add_assoc]
      exact hsecond
    | statement hplaces hspelt hwords hfits hrest =>
      obtain ⟨first, second, rfl, hfirst, hsecond⟩ := ih hrest
      refine ⟨_ :: first, second, rfl, .statement hplaces hspelt hwords hfits hfirst, ?_⟩
      rw [List.length_cons, List.flatMap_cons, List.flatMap_cons, ← List.append_assoc, List.length_append,
        Nat.add_comm (List.length _) 1, ← Nat.add_assoc, ← Nat.add_assoc]
      exact hsecond

theorem OnePass.line_bounds {number address : Nat} {known : List Text} {rows : List (List Text)}
    {entries : List Program.Entry} (h : OnePass evaluate final number address known rows entries) :
    ∀ e ∈ entries, (number : Int) ≤ e.line ∧ e.line < number + rows.length := by
  induction h with
  | nil => simp
  | labels _ _ _ ih =>
    intro e he
    have hbounds := ih e he
    rw [List.length_cons]
    omega
  | statement _ _ _ _ _ ih =>
    intro e he
    rw [List.length_cons]
    rcases List.mem_cons.1 he with rfl | he
    · simp only
      omega
    · have hbounds := ih e he
      omega

theorem mirrors_self (hext : Extends final final') {known known' row : List Text}
    (hknown : ∀ label ∈ final, label ∈ known' ↔ label ∈ known) :
    Mirrors evaluate final final' known known' row row where
  places := by
    intro address h
    refine ⟨h.valid, h.nodup, ?_, h.fits, fun label hlabel => hext _ _ (h.address_eq label hlabel)⟩
    intro label hlabel
    rw [hknown label (h.mem hlabel)]
    exact h.fresh label hlabel
  none := id
  restated := by
    intro mnemonic operands hrow
    refine ⟨operands, hrow, Grammar.Restated.self ?_ _ operands⟩
    intro own label hreference
    apply Grammar.agrees_label (fun _ => Grammar.isReference_iff.1 hreference) (hext label)
    intro hmem
    simp only [List.mem_append, hknown label hmem]

theorem OnePass.weaken (hext : Extends final final') {number address : Nat} {known known' : List Text}
    {rows : List (List Text)} {entries : List Program.Entry}
    (h : OnePass evaluate final number address known rows entries) (shift : Nat)
    (hknown : ∀ label ∈ final, label ∈ known' ↔ label ∈ known) :
    OnePass evaluate final' (number + shift) address known' rows
      (entries.map fun e => { e with line := e.line + shift }) := by
  have hsame : rows.mapIdx (fun _ row => row) = rows := by
    apply List.ext_getElem?
    simp
  rw [← hsame]
  refine h.mirror (fun _ known known' _ => ∀ label ∈ final, label ∈ known' ↔ label ∈ known)
    (fun _ row => row) (fun _ tokens => tokens) shift (fun _ _ => rfl) ?_ hknown
  intro number known known' row rest hlinked _
  refine ⟨mirrors_self hext hlinked, fun label hlabel => ?_⟩
  rw [List.mem_append, List.mem_append, hlinked label hlabel]

theorem wordsBefore_append {number : Nat} {first second : List Program.Entry}
    (hfirst : ∀ e ∈ first, e.line < number) (hsecond : ∀ e ∈ second, number ≤ e.line) :
    wordsBefore number (first ++ second) = (first.flatMap (·.words)).length := by
  have hkept : first.filter (fun e => e.line < (number : Int)) = first :=
    List.filter_eq_self.2 fun e he => decide_eq_true (hfirst e he)
  have hdropped : second.filter (fun e => e.line < (number : Int)) = [] := by
    apply List.filter_eq_nil_iff.2
    intro e he
    simpa using hsecond e he
  rw [wordsBefore, List.filter_append, hkept, hdropped, List.append_nil, List.length_flatMap]

/-- The entries of a program with a further line in the source, after the given number of lines. -/
def moveDown (n : Nat) (entries : List Program.Entry) : List Program.Entry :=
  entries.map fun e => if e.line ≤ (n : Int) then e else { e with line := e.line + 1 }

theorem words_moveDown (n : Nat) (entries : List Program.Entry) :
    (moveDown n entries).flatMap (·.words) = entries.flatMap (·.words) := by
  rw [moveDown, List.flatMap_map]
  congr 1
  funext e
  split <;> rfl

theorem moveDown_append {n : Nat} {first second : List Program.Entry} (hfirst : ∀ e ∈ first, e.line ≤ n)
    (hsecond : ∀ e ∈ second, (n : Int) < e.line) :
    moveDown n (first ++ second) = first ++ second.map fun e => { e with line := e.line + 1 } := by
  rw [moveDown, List.map_append]
  congr 1
  · rw [List.map_congr_left fun e he => if_pos (hfirst e he), List.map_id']
  · exact List.map_congr_left fun e he => if_neg (Int.not_le.2 (hsecond e he))

theorem insertIdx_length_append (before after : List (List Text)) (row : List Text) :
    (before ++ after).insertIdx before.length row = before ++ row :: after := by
  induction before with
  | nil => rfl
  | cons first rest ih => exact congrArg (first :: ·) ih

theorem Assembles.insert {before after : List (List Text)} {entries : List Program.Entry} {labels : List Text}
    (h : Assembles evaluate (before ++ after) final entries)
    (hdeclares : Declares (wordsBefore (before.length + 1) entries) final final' labels) :
    Assembles evaluate (before ++ declaring labels :: after) final' (moveDown before.length entries) := by
  have hext := hdeclares.toExtends
  obtain ⟨first, second, rfl, hfirst, hsecond⟩ := h.pass.split
  have habove : ∀ e ∈ first, e.line ≤ (before.length : Int) := by
    intro e he
    have hbounds := hfirst.line_bounds e he
    omega
  have hbelow : ∀ e ∈ second, (before.length : Int) < e.line := by
    intro e he
    have hbounds := hsecond.line_bounds e he
    omega
  have haddress : wordsBefore (before.length + 1) (first ++ second) = (first.flatMap (·.words)).length := by
    apply wordsBefore_append
    · intro e he
      have hline := habove e he
      omega
    · intro e he
      have hline := hbelow e he
      omega
  rw [haddress] at hdeclares
  rw [Nat.zero_add, List.nil_append] at hsecond
  obtain ⟨hlabels, hstatement⟩ := parts_declaring labels
  have habove' : ∀ label ∈ before.flatMap lineLabels, label ∈ final := by
    intro label hlabel
    rw [h.mem_iff, List.flatMap_append]
    exact List.mem_append_left _ hlabel
  have hplaces := places_of_declares habove' hdeclares (Extends.refl final')
  -- None of the new labels is in the old table, so no label of that table is known any earlier.
  have hknown : ∀ label ∈ final,
      label ∈ before.flatMap lineLabels ++ labels ↔ label ∈ before.flatMap lineLabels := by
    intro label hlabel
    rw [List.mem_append, or_iff_left]
    exact fun hnew => hdeclares.fresh label hnew hlabel
  have hnew := hsecond.weaken hext 1 hknown
  rw [← hlabels] at hplaces hnew
  have hbefore := hfirst.weaken hext 0 fun _ _ => Iff.rfl
  have hafter := OnePass.labels hplaces hstatement hnew
  simp only [Nat.add_zero, Int.natCast_zero, Int.add_zero, List.map_id'] at hbefore
  rw [moveDown_append habove hbelow]
  constructor
  · apply hbefore.append
    simpa using hafter
  · intro label
    rw [hdeclares.mem_iff, h.mem_iff, List.flatMap_append, List.flatMap_append, List.flatMap_cons, hlabels]
    rw [List.mem_append, List.mem_append, List.mem_append, or_assoc, or_comm (b := label ∈ labels)]

theorem Assembles.insertIdx {rows : List (List Text)} {entries : List Program.Entry} {labels : List Text} {n : Nat}
    (h : Assembles evaluate rows final entries) (hn : n ≤ rows.length)
    (hdeclares : Declares (wordsBefore (n + 1) entries) final final' labels) :
    Assembles evaluate (rows.insertIdx n (declaring labels)) final' (moveDown n entries) := by
  have hlength : (rows.take n).length = n := List.length_take_of_le hn
  rw [← List.take_append_drop n rows] at h
  rw [← hlength] at hdeclares
  have hinsert := h.insert hdeclares
  rwa [← insertIdx_length_append, hlength, List.take_append_drop] at hinsert

theorem exists_declares {address : Nat} {labels : List Text}
    (hvalid : ∀ label ∈ labels, isLabel label = true ∧ isReserved label = false) (hnodup : labels.Nodup)
    (hfresh : ∀ label ∈ labels, label ∉ final) (hfits : labels ≠ [] → address < memorySize) :
    ∃ next, Declares address final next labels := by
  obtain ⟨hlabels, hstatement⟩ := parts_declaring labels
  rw [← hlabels] at hvalid hnodup hfresh hfits ⊢
  obtain ⟨next, hdeclare⟩ := Layout.exists_declare (by simp [hstatement]) hvalid hnodup hfresh hfits
  exact ⟨next, (Layout.declares_of_declare hdeclare).2⟩

/-- A line that has no tokens or only declares new labels can be put in anywhere. -/
theorem parse_insertLine {text line : Text} {labels : List Text} {n : Nat} {p : Program}
    (hparse : parse evaluate (Source.ofText text) = .ok p) (hn : n ≤ (Source.ofText text).lines.length)
    (hnewline : Text.newline ∉ line) (hlength : line.length < Text.lineLimit)
    (hline : Token.ofLine (Text.chomp line) = declaring labels)
    (hvalid : ∀ label ∈ labels, isLabel label = true ∧ isReserved label = false) (hnodup : labels.Nodup)
    (hfresh : ∀ label ∈ labels, label ∉ p.symbols)
    (hfits : labels ≠ [] → wordsBefore (n + 1) p.entries < memorySize) :
    ∃ q, parse evaluate (Source.ofText (Text.insertLine n line text)) = .ok q ∧ q.words = p.words ∧
      q.entries = moveDown n p.entries ∧
      ∀ label : Text, q.symbols[label]? = if label ∈ labels then
        some (UInt16.ofNat (wordsBefore (n + 1) p.entries)) else p.symbols[label]? := by
  have hassembles := assembles_of_parse hparse
  obtain ⟨final, hdeclares⟩ := exists_declares hvalid hnodup hfresh hfits
  have hread := overlong_eq_false_of_parse hparse
  rcases Text.lines_insertLine hread hn hnewline hlength with hlines | ⟨hempty, hlast, hsame⟩
  · have hrows : (Source.ofText (Text.insertLine n line text)).lines.map Token.ofLine =
        ((Source.ofText text).lines.map Token.ofLine).insertIdx n (declaring labels) := by
      rw [← hline, ← List.map_insertIdx]
      exact congrArg (fun read => read.lines.map Token.ofLine) hlines
    have hinsert := hassembles.insertIdx (by simpa using hn) hdeclares
    rw [← hrows] at hinsert
    obtain ⟨q, hq, hentries, hsymbols⟩ := exists_parse_of_assembles (by simp [Source.ofText, hlines]) hinsert
    refine ⟨q, hq, ?_, hentries, fun label => ?_⟩
    · rw [Program.words, hentries]
      exact words_moveDown n p.entries
    · rw [hsymbols, hdeclares.lookup]
  · -- An empty line after the last one is not read at all.
    have htokens : Token.ofLine (Text.chomp []) = [] := Token.tokensFrom_eq_iff.2 .nil
    obtain rfl : labels = [] := by
      rw [hempty, htokens] at hline
      cases labels with
      | nil => rfl
      | cons label rest => contradiction
    have hsource : Source.ofText (Text.insertLine n line text) = Source.ofText text := by
      rw [Source.ofText, Source.ofText, hsame]
    have habove : ∀ e ∈ p.entries, e.line ≤ (n : Int) := by
      intro e he
      have hbounds := hassembles.pass.line_bounds e he
      rw [List.length_map] at hbounds
      change n = (Source.ofText text).lines.length at hlast
      omega
    have hmoved : moveDown n (p.entries ++ []) = p.entries ++ [].map _ := moveDown_append habove (by simp)
    rw [List.append_nil, List.map_nil, List.append_nil] at hmoved
    rw [hsource]
    exact ⟨p, hparse, rfl, hmoved.symm, fun label => by simp⟩

theorem parse_insertLine_between :
    ∃ p q, parse Constant.closed (Source.ofText (ascii "SET A, end\n:end SET PC, end")) = .ok p ∧
      parse Constant.closed (Source.ofText (ascii "SET A, end\n\t:here :there ; here\n:end SET PC, end")) = .ok q ∧
      q.words = [0x7c01, 2, 0x89c1] ∧ p.entries.map (·.line) = [1, 2] ∧ q.entries.map (·.line) = [1, 3] ∧
      q.symbols[ascii "there"]? = some 2 ∧ q.symbols[ascii "end"]? = some 2 := by
  have htext : Text.insertLine 1 (ascii "\t:here :there ; here") (ascii "SET A, end\n:end SET PC, end") =
      ascii "SET A, end\n\t:here :there ; here\n:end SET PC, end" := by decide +kernel
  have hparse : (parse Constant.closed (Source.ofText (ascii "SET A, end\n:end SET PC, end"))).map
      (fun p => (p.entries, p.symbols.toList)) =
        .ok ([⟨1, 0, ["SET", "A", ",", "end"].map ascii, [0x7c01, 2]⟩,
          ⟨2, 2, ["SET", "PC", ",", "end"].map ascii, [0x89c1]⟩], [(ascii "end", 2)]) := by decide +kernel
  have hline : Token.ofLine (Text.chomp (ascii "\t:here :there ; here")) =
      declaring [ascii "here", ascii "there"] := by decide +kernel
  have hlast : 1 ≤ (Source.ofText (ascii "SET A, end\n:end SET PC, end")).lines.length := by decide +kernel
  obtain ⟨p, hp, hvalues⟩ := map_eq_ok_iff.1 hparse
  obtain ⟨hentries, hsymbols⟩ := Prod.mk.inj hvalues
  have haddress : wordsBefore 2 p.entries = 2 := by
    rw [← hentries]
    rfl
  have hend : p.symbols[ascii "end"]? = some 2 := by
    rw [← Std.TreeMap.mem_toList_iff_getElem?_eq_some, ← hsymbols]
    exact List.mem_singleton_self _
  have hfresh : ∀ label ∈ [ascii "here", ascii "there"], label ∉ p.symbols := by
    have hother : ∀ label ∈ [ascii "here", ascii "there"], label ∉ [ascii "end"] := by decide +kernel
    intro label hlabel hmem
    have hkey := Std.TreeMap.mem_keys.2 hmem
    rw [← Std.TreeMap.map_fst_toList_eq_keys, ← hsymbols] at hkey
    exact hother label hlabel hkey
  obtain ⟨q, hq, hwords, hmoved, hlookup⟩ := parse_insertLine hp hlast (by decide +kernel) (by decide +kernel) hline
    (by decide +kernel) (by decide +kernel) hfresh (by rw [haddress]; decide)
  rw [htext] at hq
  rw [haddress] at hlookup
  have hold : p.words = [0x7c01, 2, 0x89c1] := by
    rw [Program.words, ← hentries]
    rfl
  rw [← hentries] at hmoved
  refine ⟨p, q, hp, hq, hwords.trans hold, by rw [← hentries]; rfl, by rw [hmoved]; rfl, ?_, ?_⟩
  · rw [hlookup, if_pos (by decide +kernel)]
    rfl
  · rw [hlookup, if_neg (by decide +kernel), hend]

end
end Asm16.Assembly
