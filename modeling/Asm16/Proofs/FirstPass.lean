import Asm16.Assembly.Layout
import Asm16.Proofs.Meaning
import Mathlib.Data.List.Induction

/-! The first pass. A source is seen as its tokens: which labels each line declares, and which
statement follows them. The layout that the pass arrives at describes exactly that, with the address
of a label being the size of all statements on earlier lines. -/

namespace Asm16.Assembly

def lineLabels : List Text → List Text
  | colon :: label :: rest => if colon = Layout.colonToken then label :: lineLabels rest else []
  | _ => []

def lineStatement : List Text → List Text
  | colon :: label :: rest =>
    if colon = Layout.colonToken then lineStatement rest else colon :: label :: rest
  | tokens => tokens

def declarations (lines : List Text) : List (Nat × Text) :=
  (lines.zipIdx 1).flatMap fun (line, number) => (lineLabels (Token.ofLine line)).map (number, ·)

structure Written where
  line : Nat
  text : Text
  tokens : List Text
  deriving DecidableEq, Repr

def Written.ofLine? (number : Nat) (line : Text) : Option Written :=
  if lineStatement (Token.ofLine line) = [] then none
  else some ⟨number, line, lineStatement (Token.ofLine line)⟩

def statements (lines : List Text) : List Written :=
  (lines.zipIdx 1).filterMap fun (line, number) => Written.ofLine? number line

theorem declarations_concat (lines : List Text) (line : Text) :
    declarations (lines ++ [line]) =
      declarations lines ++ (lineLabels (Token.ofLine line)).map (lines.length + 1, ·) := by
  simp [declarations, List.zipIdx_append, Nat.add_comm]

theorem statements_concat (lines : List Text) (line : Text) :
    statements (lines ++ [line]) =
      statements lines ++ (Written.ofLine? (lines.length + 1) line).toList := by
  rw [statements, List.zipIdx_append, List.filterMap_append, Nat.add_comm]
  congr 1

theorem line_le_of_mem_declarations {lines : List Text} {number : Nat} {label : Text}
    (h : (number, label) ∈ declarations lines) : 1 ≤ number ∧ number ≤ lines.length := by
  obtain ⟨⟨line, n⟩, hmem, hlabel⟩ := List.mem_flatMap.1 h
  obtain ⟨_, _, heq⟩ := List.mem_map.1 hlabel
  obtain ⟨rfl, _⟩ := Prod.mk.inj heq
  have := List.mem_zipIdx hmem
  omega

theorem line_le_of_mem_statements {lines : List Text} {w : Written} (h : w ∈ statements lines) :
    1 ≤ w.line ∧ w.line ≤ lines.length := by
  obtain ⟨⟨line, n⟩, hmem, hw⟩ := List.mem_filterMap.1 h
  have hn := List.mem_zipIdx hmem
  simp only [Written.ofLine?] at hw
  split at hw
  · contradiction
  · obtain rfl := Option.some.inj hw
    simp only
    omega

theorem pairwise_line_statements (lines : List Text) :
    (statements lines).Pairwise (fun v w => v.line < w.line) := by
  induction lines using List.reverseRecOn with
  | nil => exact List.Pairwise.nil
  | append_singleton lines line ih =>
    rw [statements_concat, List.pairwise_append]
    refine ⟨ih, ?_, ?_⟩
    · cases Written.ofLine? (lines.length + 1) line <;> simp
    · intro v hv w hw
      have hle := (line_le_of_mem_statements hv).2
      have hline : w.line = lines.length + 1 := by
        simp only [Written.ofLine?] at hw
        split at hw <;> simp_all
      omega

structure Declares (address : Nat) (symbols final : Symbols) (labels : List Text) : Prop where
  valid : ∀ label ∈ labels, isLabel label = true ∧ isReserved label = false
  nodup : labels.Nodup
  fresh : ∀ label ∈ labels, label ∉ symbols
  fits : labels ≠ [] → address < memorySize
  lookup : ∀ label : Text, final[label]? =
    if label ∈ labels then some (UInt16.ofNat address) else symbols[label]?

namespace Declares

theorem nil (address : Nat) (symbols : Symbols) : Declares address symbols symbols [] where
  valid := by simp
  nodup := List.nodup_nil
  fresh := by simp
  fits := by simp
  lookup := by simp

theorem cons {address : Nat} {symbols final : Symbols} {label : Text} {labels : List Text}
    (hlabel : isLabel label = true) (hfree : isReserved label = false) (hfresh : label ∉ symbols)
    (hfits : address < memorySize)
    (h : Declares address (symbols.insert label (UInt16.ofNat address)) final labels) :
    Declares address symbols final (label :: labels) where
  valid := by
    intro other hother
    rcases List.mem_cons.1 hother with rfl | hother
    · exact ⟨hlabel, hfree⟩
    · exact h.valid other hother
  nodup := by
    refine List.nodup_cons.2 ⟨fun hmem => ?_, h.nodup⟩
    exact h.fresh label hmem Std.TreeMap.mem_insert_self
  fresh := by
    intro other hother hmem
    rcases List.mem_cons.1 hother with rfl | hother
    · exact hfresh hmem
    · exact h.fresh other hother (Std.TreeMap.mem_insert.2 (.inr hmem))
  fits := fun _ => hfits
  lookup := by
    intro other
    rw [h.lookup, Std.TreeMap.getElem?_insert]
    by_cases hother : other ∈ labels
    · simp [hother]
    · by_cases heq : label = other
      · subst heq
        simp
      · simp [hother, heq, Ne.symm heq]

theorem mem_iff {address : Nat} {symbols final : Symbols} {labels : List Text}
    (h : Declares address symbols final labels) (label : Text) :
    label ∈ final ↔ label ∈ symbols ∨ label ∈ labels := by
  rw [Std.TreeMap.mem_iff_isSome_getElem?, Std.TreeMap.mem_iff_isSome_getElem?, h.lookup]
  by_cases hmem : label ∈ labels <;> simp [hmem]

theorem toExtends {address : Nat} {symbols final : Symbols} {labels : List Text}
    (h : Declares address symbols final labels) : Extends symbols final := by
  intro label found hfound
  have hmem : label ∈ symbols := by
    rw [Std.TreeMap.mem_iff_isSome_getElem?, hfound]
    rfl
  rw [h.lookup, if_neg fun hnew => h.fresh label hnew hmem]
  exact hfound

end Declares

namespace Layout

theorem declares_of_declare {address : Nat} {symbols final : Symbols} {tokens rest : List Text}
    (h : declare address symbols tokens = .ok (final, rest)) :
    rest = lineStatement tokens ∧ Declares address symbols final (lineLabels tokens) := by
  fun_induction declare address symbols tokens with
  | case1 symbols =>
    obtain ⟨rfl, rfl⟩ : symbols = final ∧ [] = rest := by simpa using h
    exact ⟨rfl, .nil address symbols⟩
  | case3 symbols token hcolon =>
    obtain ⟨rfl, rfl⟩ : symbols = final ∧ [token] = rest := by simpa using h
    exact ⟨rfl, .nil address symbols⟩
  | case2 | case4 | case5 | case6 | case7 => contradiction
  | case8 symbols label tokens hlabel hreserved hnew haddress ih =>
    obtain ⟨rfl, hdeclares⟩ := ih h
    refine ⟨rfl, ?_⟩
    refine hdeclares.cons (by simpa using hlabel) (by simpa using hreserved) ?_ (by omega)
    rwa [Std.TreeMap.mem_iff_contains]
  | case9 symbols token label tokens hcolon =>
    obtain ⟨rfl, rfl⟩ : symbols = final ∧ token :: label :: tokens = rest := by simpa using h
    rw [lineStatement, lineLabels, if_neg hcolon, if_neg hcolon]
    exact ⟨rfl, .nil address symbols⟩

theorem addLine_cases {evaluate : Evaluator} {number : Nat} {line : Text} {layout next : Layout}
    (h : layout.addLine evaluate number line = .ok next) :
    ∃ symbols, Declares layout.address layout.symbols symbols (lineLabels (Token.ofLine line)) ∧
      ((lineStatement (Token.ofLine line) = [] ∧ next = ⟨symbols, layout.address, layout.statements⟩) ∨
        ∃ (mnemonic : Text) (rest : List Text) (p : Grammar.Phrase),
          lineStatement (Token.ofLine line) = mnemonic :: rest ∧
          p.Spelt evaluate (mnemonic :: rest) ∧
          layout.address + (p.body symbols).size ≤ memorySize ∧
          next = ⟨symbols, layout.address + (p.body symbols).size,
            ⟨number, line, mnemonic :: rest, p.body symbols⟩ :: layout.statements⟩) := by
  unfold addLine at h
  split at h
  · contradiction
  · rename_i symbols hdeclare
    obtain ⟨hrest, hdeclares⟩ := declares_of_declare hdeclare
    exact ⟨symbols, hdeclares, .inl ⟨hrest.symm, (Except.ok.inj h).symm⟩⟩
  · rename_i symbols mnemonic rest hdeclare
    obtain ⟨hrest, hdeclares⟩ := declares_of_declare hdeclare
    split at h
    · contradiction
    · rename_i body hbody
      obtain ⟨p, hspelt, rfl⟩ := Grammar.statement_eq_ok_iff.1 hbody
      simp only at h
      split at h
      · contradiction
      · rename_i hfits
        exact ⟨symbols, hdeclares, .inr ⟨mnemonic, rest, p, hrest.symm, hspelt, by omega,
          (Except.ok.inj h).symm⟩⟩

theorem addLines_append (evaluate : Evaluator) (number : Nat) (layout : Layout)
    (before after : List Text) :
    addLines evaluate number layout (before ++ after) =
      (addLines evaluate number layout before).bind fun middle =>
        addLines evaluate (number + before.length) middle after := by
  induction before generalizing number layout with
  | nil => rfl
  | cons line rest ih =>
    rw [List.cons_append, addLines, addLines]
    cases layout.addLine evaluate number line with
    | error e => rfl
    | ok next =>
      simp only [ih]
      rw [List.length_cons, Nat.add_assoc, Nat.add_comm 1]

theorem addLines_induction {evaluate : Evaluator} {motive : List Text → Layout → Prop}
    (start : motive [] start)
    (step : ∀ lines layout line next, motive lines layout →
      layout.addLine evaluate (lines.length + 1) line = .ok next → motive (lines ++ [line]) next)
    {lines : List Text} {layout : Layout} (h : addLines evaluate 1 Layout.start lines = .ok layout) :
    motive lines layout := by
  -- The lines before are carried along, so that the recursion over those after can be followed.
  suffices hrun : ∀ (after before : List Text) (middle : Layout), motive before middle →
      addLines evaluate (before.length + 1) middle after = .ok layout →
      motive (before ++ after) layout from hrun lines [] Layout.start start h
  intro after
  induction after with
  | nil =>
    intro before middle hmiddle hrun
    obtain rfl := Except.ok.inj hrun
    rwa [List.append_nil]
  | cons line rest ih =>
    intro before middle hmiddle hrun
    rw [addLines] at hrun
    split at hrun
    · contradiction
    · rename_i next hnext
      have hmotive := ih (before ++ [line]) next (step before middle line next hmiddle hnext)
      rw [List.length_append, List.length_singleton, List.append_assoc] at hmotive
      exact hmotive hrun

end Layout

def Statement.written (s : Statement) : Written := ⟨s.line, s.text, s.tokens⟩

def sizeBefore (number : Nat) (ss : List Statement) : Nat :=
  ((ss.filter (·.line < number)).map (·.body.size)).sum

theorem sizeBefore_cons {number : Nat} {s : Statement} (h : number ≤ s.line) (ss : List Statement) :
    sizeBefore number (s :: ss) = sizeBefore number ss := by
  rw [sizeBefore, List.filter_cons_of_neg (by simpa using h)]
  rfl

theorem sizeBefore_eq_sum {number : Nat} {ss : List Statement} (h : ∀ s ∈ ss, s.line < number) :
    sizeBefore number ss = (ss.map (·.body.size)).sum := by
  rw [sizeBefore, List.filter_eq_self.2 (by simpa using h)]

/-- What a layout says about the labels declared and the statements written so far. Each statement
was read with the labels declared on its line or before. -/
structure Layout.Describes (evaluate : Evaluator) (declared : List (Nat × Text))
    (written : List Written) (layout : Layout) : Prop where
  written_eq : layout.statements.reverse.map Statement.written = written
  address_eq : layout.address = (layout.statements.map (·.body.size)).sum
  fits : layout.address ≤ memorySize
  mem_symbols : ∀ label : Text, label ∈ layout.symbols ↔ ∃ number, (number, label) ∈ declared
  address_of : ∀ (number : Nat) (label : Text), (number, label) ∈ declared →
    ∃ address, layout.symbols[label]? = some address ∧
      address.toNat = sizeBefore number layout.statements
  spelt : ∀ s ∈ layout.statements, ∃ (symbols : Symbols) (p : Grammar.Phrase),
    p.Spelt evaluate s.tokens ∧ s.body = p.body symbols ∧ Extends symbols layout.symbols ∧
      ∀ label : Text, label ∈ symbols ↔ ∃ number ≤ s.line, (number, label) ∈ declared

namespace Layout.Describes

variable {evaluate : Evaluator} {declared : List (Nat × Text)} {written : List Written}
  {layout : Layout}

theorem start (evaluate : Evaluator) : Describes evaluate [] [] Layout.start where
  written_eq := rfl
  address_eq := rfl
  fits := by decide
  mem_symbols := by simp [Layout.start]
  address_of := by simp
  spelt := by simp [Layout.start]

theorem line_mem (h : Describes evaluate declared written layout) {s : Statement}
    (hs : s ∈ layout.statements) : s.written ∈ written := by
  rw [← h.written_eq]
  exact List.mem_map_of_mem (List.mem_reverse.2 hs)

theorem getElem?_symbols_iff (h : Describes evaluate declared written layout) {label : Text}
    {address : UInt16} : layout.symbols[label]? = some address ↔
      ∃ number, (number, label) ∈ declared ∧ address.toNat = sizeBefore number layout.statements := by
  constructor
  · intro haddress
    have hmem : label ∈ layout.symbols := by
      rw [Std.TreeMap.mem_iff_isSome_getElem?, haddress]
      rfl
    obtain ⟨number, hdeclared⟩ := (h.mem_symbols label).1 hmem
    obtain ⟨value, hvalue, hsize⟩ := h.address_of number label hdeclared
    obtain rfl := Option.some.inj (haddress.symm.trans hvalue)
    exact ⟨number, hdeclared, hsize⟩
  · rintro ⟨number, hdeclared, hsize⟩
    obtain ⟨value, hvalue, hvaluesize⟩ := h.address_of number label hdeclared
    rw [hvalue, UInt16.toNat_inj.1 (hsize.trans hvaluesize.symm)]

theorem declare (h : Describes evaluate declared written layout) {number : Nat}
    (hbefore : ∀ w ∈ written, w.line < number) {symbols : Symbols} {labels : List Text}
    (hdeclares : Declares layout.address layout.symbols symbols labels) :
    Describes evaluate (declared ++ labels.map (number, ·)) written
      ⟨symbols, layout.address, layout.statements⟩ where
  written_eq := h.written_eq
  address_eq := h.address_eq
  fits := h.fits
  mem_symbols := by
    intro label
    rw [hdeclares.mem_iff, h.mem_symbols]
    simp [exists_or]
  address_of := by
    intro line label hmem
    rcases List.mem_append.1 hmem with hold | hnew
    · obtain ⟨address, haddress, hsize⟩ := h.address_of line label hold
      exact ⟨address, hdeclares.toExtends label address haddress, hsize⟩
    · obtain ⟨label, hlabel, heq⟩ := List.mem_map.1 hnew
      obtain ⟨rfl, rfl⟩ := Prod.mk.inj heq
      have hlt : layout.address < 65536 := hdeclares.fits (List.ne_nil_of_mem hlabel)
      refine ⟨UInt16.ofNat layout.address, ?_, ?_⟩
      · rw [hdeclares.lookup, if_pos hlabel]
      · rw [sizeBefore_eq_sum fun s hs => hbefore _ (h.line_mem hs), ← h.address_eq,
          UInt16.toNat_ofNat_of_lt' hlt]
  spelt := by
    intro s hs
    obtain ⟨early, p, hspelt, hbody, hext, hearly⟩ := h.spelt s hs
    refine ⟨early, p, hspelt, hbody, hext.trans hdeclares.toExtends, fun label => ?_⟩
    have hline : s.line < number := hbefore _ (h.line_mem hs)
    rw [hearly]
    constructor
    · rintro ⟨k, hk, hmem⟩
      exact ⟨k, hk, List.mem_append_left _ hmem⟩
    · rintro ⟨k, hk, hmem⟩
      rcases List.mem_append.1 hmem with hold | hnew
      · exact ⟨k, hk, hold⟩
      · -- A statement written before knows no label of this line.
        obtain ⟨_, _, heq⟩ := List.mem_map.1 hnew
        obtain ⟨rfl, _⟩ := Prod.mk.inj heq
        omega

theorem add (h : Describes evaluate declared written layout) {number : Nat}
    (hdeclared : ∀ d ∈ declared, d.1 ≤ number) {p : Grammar.Phrase} {tokens : List Text}
    (hspelt : p.Spelt evaluate tokens)
    (hfits : layout.address + (p.body layout.symbols).size ≤ memorySize) (text : Text) :
    Describes evaluate declared (written ++ [⟨number, text, tokens⟩])
      ⟨layout.symbols, layout.address + (p.body layout.symbols).size,
        ⟨number, text, tokens, p.body layout.symbols⟩ :: layout.statements⟩ where
  written_eq := by
    rw [List.reverse_cons, List.map_append, h.written_eq]
    rfl
  address_eq := by
    rw [List.map_cons, List.sum_cons, ← h.address_eq, Nat.add_comm]
  fits := hfits
  mem_symbols := h.mem_symbols
  address_of := by
    intro line label hmem
    obtain ⟨address, haddress, hsize⟩ := h.address_of line label hmem
    refine ⟨address, haddress, ?_⟩
    rw [sizeBefore_cons (hdeclared _ hmem)]
    exact hsize
  spelt := by
    intro s hs
    rcases List.mem_cons.1 hs with rfl | hs
    · refine ⟨layout.symbols, p, hspelt, rfl, .refl _, fun label => ?_⟩
      rw [h.mem_symbols]
      constructor
      · rintro ⟨k, hmem⟩
        exact ⟨k, hdeclared _ hmem, hmem⟩
      · rintro ⟨k, _, hmem⟩
        exact ⟨k, hmem⟩
    · exact h.spelt s hs

end Layout.Describes

namespace Layout

theorem describes_of_addLines {evaluate : Evaluator} {lines : List Text} {layout : Layout}
    (h : addLines evaluate 1 start lines = .ok layout) :
    Describes evaluate (declarations lines) (Assembly.statements lines) layout := by
  refine addLines_induction (motive := fun lines layout =>
    Describes evaluate (declarations lines) (Assembly.statements lines) layout)
    (Describes.start evaluate) ?_ h
  intro lines layout line next hdescribes hline
  obtain ⟨symbols, hdeclares, hcases⟩ := addLine_cases hline
  have hbefore : ∀ w ∈ Assembly.statements lines, w.line < lines.length + 1 := by
    intro w hw
    have := line_le_of_mem_statements hw
    omega
  have hstep := hdescribes.declare hbefore hdeclares
  rw [← declarations_concat] at hstep
  rw [statements_concat]
  rcases hcases with ⟨hnone, rfl⟩ | ⟨mnemonic, rest, p, hsome, hspelt, hfits, rfl⟩
  · rw [Written.ofLine?, if_pos hnone, Option.toList_none, List.append_nil]
    exact hstep
  · have hdeclared : ∀ d ∈ declarations (lines ++ [line]), d.1 ≤ lines.length + 1 := by
      rintro ⟨k, label⟩ hd
      simpa using (line_le_of_mem_declarations hd).2
    rw [Written.ofLine?, if_neg (by simp [hsome]), hsome]
    exact hstep.add hdeclared hspelt hfits line

theorem addLines_of_ofSource {evaluate : Evaluator} {source : Source} {layout : Layout}
    (h : ofSource evaluate source = .ok layout) : addLines evaluate 1 start source.lines = .ok layout := by
  unfold ofSource at h
  split at h
  · contradiction
  · rename_i layout' hlayout
    split at h
    · contradiction
    · obtain rfl := Except.ok.inj h
      exact hlayout

theorem describes_of_ofSource {evaluate : Evaluator} {source : Source} {layout : Layout}
    (h : ofSource evaluate source = .ok layout) :
    Describes evaluate (declarations source.lines) (Assembly.statements source.lines) layout :=
  describes_of_addLines (addLines_of_ofSource h)

end Layout
end Asm16.Assembly
