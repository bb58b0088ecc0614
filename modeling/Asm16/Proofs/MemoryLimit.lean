import Asm16.Proofs.Addressing
import Asm16.Proofs.FirstFault

/-! The limit of memory. The first pass is seen as a run over events: a line declares its labels one by one
and then adds its statement. Without a limit each event is possible or not by itself. The limit turns away a
statement that would end beyond the last word of memory, and a label for which there is no word left, and
nothing else; so an address that was given to a label or a statement is always one of a word in memory. -/

namespace Asm16.Assembly

/-! ### Events -/

inductive Event where
  | label (name : Text)
  | statement (mnemonic : Text) (operands : List Text)
  deriving DecidableEq, Repr

structure Occurrence where
  line : Nat
  text : Text
  event : Event
  deriving DecidableEq, Repr

/-- The events of a line. A colon at the end declares a label without a name. -/
def rowEvents : List Text → List Event
  | [] => []
  | [token] => if token = Layout.colonToken then [.label []] else [.statement token []]
  | token :: next :: rest =>
    if token = Layout.colonToken then .label next :: rowEvents rest else [.statement token (next :: rest)]

def occurrencesFrom (number : Nat) : List Text → List Occurrence
  | [] => []
  | line :: rest =>
    (rowEvents (Token.ofLine line)).map (⟨number, line, ·⟩) ++ occurrencesFrom (number + 1) rest

def EndsInStatement (os : List Occurrence) : Prop :=
  ∃ o mnemonic operands, os.getLast? = some o ∧ o.event = .statement mnemonic operands

namespace Layout

def size (layout : Layout) : Nat := (layout.statements.map (·.body.size)).sum

/-- What an event does to a layout when memory has no end. -/
def place? (evaluate : Evaluator) (layout : Layout) (o : Occurrence) : Option Layout :=
  match o.event with
  | .label name =>
    if isLabel name && !isReserved name && !layout.symbols.contains name then
      some { layout with symbols := layout.symbols.insert name (UInt16.ofNat layout.address) }
    else none
  | .statement mnemonic operands =>
    match statement evaluate layout.symbols mnemonic operands with
    | .ok body => some ⟨layout.symbols, layout.address + body.size,
        ⟨o.line, o.text, mnemonic :: operands, body⟩ :: layout.statements⟩
    | .error _ => none

def placeAll? (evaluate : Evaluator) (layout : Layout) : List Occurrence → Option Layout
  | [] => some layout
  | o :: rest => (layout.place? evaluate o).bind fun next => placeAll? evaluate next rest

/-- What the first pass does at an event. -/
def take (evaluate : Evaluator) (layout : Layout) (o : Occurrence) : Except Fault Layout :=
  match o.event with
  | .label name =>
    if !isLabel name then .error (.labelInvalid name)
    else if isReserved name then .error (.labelReserved name)
    else if layout.symbols.contains name then .error .labelDuplicated
    else if memorySize ≤ layout.address then .error .programTooLarge
    else .ok { layout with symbols := layout.symbols.insert name (UInt16.ofNat layout.address) }
  | .statement mnemonic operands =>
    match statement evaluate layout.symbols mnemonic operands with
    | .error e => .error e
    | .ok body =>
      if memorySize < layout.address + body.size then .error .programTooLarge
      else .ok ⟨layout.symbols, layout.address + body.size,
        ⟨o.line, o.text, mnemonic :: operands, body⟩ :: layout.statements⟩

def takeAll (evaluate : Evaluator) (layout : Layout) : List Occurrence → Except SyntaxError Layout
  | [] => .ok layout
  | o :: rest =>
    match layout.take evaluate o with
    | .error e => .error ⟨o.line, o.text, e⟩
    | .ok next => takeAll evaluate next rest

end Layout

namespace Event

def Fits (layout next : Layout) : Event → Prop
  | label _ => layout.address < memorySize
  | statement _ _ => next.address ≤ memorySize

def Overflows (layout next : Layout) : Event → Prop
  | label _ => layout.size = memorySize
  | statement _ _ => memorySize < next.size

end Event

/-! ### The first pass as a run -/

section
variable {evaluate : Evaluator}

namespace Layout

theorem takeAll_append {layout : Layout} (first second : List Occurrence) :
    layout.takeAll evaluate (first ++ second) =
      match layout.takeAll evaluate first with
      | .error e => .error e
      | .ok next => next.takeAll evaluate second := by
  induction first generalizing layout with
  | nil => rfl
  | cons o rest ih =>
    rw [List.cons_append, takeAll, takeAll]
    cases layout.take evaluate o with
    | error e => rfl
    | ok next => exact ih

theorem takeAll_rowEvents (number : Nat) (line : Text) (address : Nat) (symbols : Symbols)
    (statements : List Statement) (tokens : List Text) :
    takeAll evaluate ⟨symbols, address, statements⟩ ((rowEvents tokens).map (⟨number, line, ·⟩)) =
      match declare address symbols tokens with
      | .error e => .error ⟨number, line, e⟩
      | .ok (symbols, []) => .ok ⟨symbols, address, statements⟩
      | .ok (symbols, mnemonic :: rest) =>
        takeAll evaluate ⟨symbols, address, statements⟩ [⟨number, line, .statement mnemonic rest⟩] := by
  fun_induction declare address symbols tokens with
  | case1 symbols => rfl
  | case2 symbols => rfl
  | case3 symbols token hcolon =>
    rw [rowEvents, if_neg hcolon]
    rfl
  | case4 symbols label rest hlabel => simp [rowEvents, takeAll, take, hlabel]
  | case5 symbols label rest hlabel hreserved => simp [rowEvents, takeAll, take, hlabel, hreserved]
  | case6 symbols label rest hlabel hreserved hknown =>
    simp [rowEvents, takeAll, take, hlabel, hreserved, hknown]
  | case7 symbols label rest hlabel hreserved hknown hfull =>
    simp [rowEvents, takeAll, take, hlabel, hreserved, hknown, hfull]
  | case8 symbols label rest hlabel hreserved hknown hroom ih =>
    rw [← ih]
    simp [rowEvents, takeAll, take, hlabel, hreserved, hknown, hroom]
  | case9 symbols token label rest hcolon =>
    rw [rowEvents, if_neg hcolon]
    rfl

theorem takeAll_line (number : Nat) (line : Text) (layout : Layout) :
    layout.takeAll evaluate ((rowEvents (Token.ofLine line)).map (⟨number, line, ·⟩)) =
      match layout.addLine evaluate number line with
      | .error e => .error ⟨number, line, e⟩
      | .ok next => .ok next := by
  rw [takeAll_rowEvents, addLine]
  cases hdeclare : declare layout.address layout.symbols (Token.ofLine line) with
  | error e => rfl
  | ok result =>
    obtain ⟨symbols, rest⟩ := result
    cases rest with
    | nil => rfl
    | cons mnemonic rest =>
      cases hstatement : statement evaluate symbols mnemonic rest with
      | error e => simp [takeAll, take, hstatement]
      | ok body =>
        by_cases hlarge : memorySize < layout.address + body.size
        · simp [takeAll, take, hstatement, hlarge]
        · simp [takeAll, take, hstatement, hlarge]

theorem addLines_eq_takeAll (number : Nat) (layout : Layout) (lines : List Text) :
    layout.addLines evaluate number lines = layout.takeAll evaluate (occurrencesFrom number lines) := by
  induction lines generalizing number layout with
  | nil => rfl
  | cons line rest ih =>
    rw [addLines, occurrencesFrom, takeAll_append, takeAll_line]
    cases layout.addLine evaluate number line with
    | error e => rfl
    | ok next => exact ih (number + 1) next

theorem takeAll_eq_error_iff {layout : Layout} {os : List Occurrence} {e : SyntaxError} :
    layout.takeAll evaluate os = .error e ↔ ∃ before o after middle, os = before ++ o :: after ∧
      layout.takeAll evaluate before = .ok middle ∧ middle.take evaluate o = .error e.cause ∧
        e = ⟨o.line, o.text, e.cause⟩ := by
  constructor
  · intro h
    induction os generalizing layout with
    | nil => contradiction
    | cons o rest ih =>
      rw [takeAll] at h
      cases htake : layout.take evaluate o with
      | error fault =>
        rw [htake] at h
        cases h
        exact ⟨[], o, rest, layout, rfl, rfl, htake, rfl⟩
      | ok next =>
        rw [htake] at h
        obtain ⟨before, first, after, middle, rfl, hbefore, hfault, he⟩ := ih h
        refine ⟨o :: before, first, after, middle, rfl, ?_, hfault, he⟩
        rw [takeAll, htake]
        exact hbefore
  · rintro ⟨before, o, after, middle, rfl, hbefore, hfault, he⟩
    rw [takeAll_append, hbefore, he]
    simp only [takeAll, hfault]

/-! ### Room -/

variable {layout next : Layout} {o : Occurrence}

theorem take_cases (evaluate : Evaluator) (layout : Layout) (o : Occurrence) :
    (∃ next, layout.place? evaluate o = some next ∧
      ((o.event.Fits layout next ∧ layout.take evaluate o = .ok next) ∨
        (¬ o.event.Fits layout next ∧ layout.take evaluate o = .error .programTooLarge))) ∨
      (layout.place? evaluate o = none ∧
        ∃ fault, layout.take evaluate o = .error fault ∧ fault ≠ .programTooLarge) := by
  obtain ⟨line, text, name | ⟨mnemonic, operands⟩⟩ := o
  · simp only [place?, take]
    cases isLabel name with
    | false => exact .inr ⟨rfl, _, rfl, by simp⟩
    | true =>
      cases isReserved name with
      | true => exact .inr ⟨rfl, _, rfl, by simp⟩
      | false =>
        cases layout.symbols.contains name with
        | true => exact .inr ⟨rfl, _, rfl, by simp⟩
        | false =>
          refine .inl ⟨_, rfl, ?_⟩
          by_cases hroom : layout.address < memorySize
          · exact .inl ⟨hroom, if_neg (Nat.not_le.2 hroom)⟩
          · exact .inr ⟨hroom, if_pos (Nat.le_of_not_lt hroom)⟩
  · simp only [place?, take]
    cases hbody : statement evaluate layout.symbols mnemonic operands with
    | error fault =>
      refine .inr ⟨rfl, fault, rfl, ?_⟩
      rintro rfl
      -- The tokens alone can have many faults, but want of room is none of them.
      have hspelling := isSpelling_of_statement hbody
      contradiction
    | ok body =>
      refine .inl ⟨_, rfl, ?_⟩
      by_cases hroom : layout.address + body.size ≤ memorySize
      · exact .inl ⟨hroom, if_neg (Nat.not_lt.2 hroom)⟩
      · exact .inr ⟨hroom, if_pos (Nat.lt_of_not_le hroom)⟩

theorem take_eq_ok_iff : layout.take evaluate o = .ok next ↔
    layout.place? evaluate o = some next ∧ o.event.Fits layout next := by
  rcases take_cases evaluate layout o with
    ⟨placed, hplace, ⟨hfits, htake⟩ | ⟨hfits, htake⟩⟩ | ⟨hplace, fault, htake, -⟩
  · rw [htake, hplace]
    constructor
    · rintro ⟨⟩
      exact ⟨rfl, hfits⟩
    · rintro ⟨⟨⟩, -⟩
      rfl
  · rw [htake, hplace]
    constructor
    · intro h
      contradiction
    · rintro ⟨⟨⟩, h⟩
      contradiction
  · simp [htake, hplace]

theorem take_eq_programTooLarge_iff : layout.take evaluate o = .error .programTooLarge ↔
    ∃ next, layout.place? evaluate o = some next ∧ ¬ o.event.Fits layout next := by
  rcases take_cases evaluate layout o with
    ⟨placed, hplace, ⟨hfits, htake⟩ | ⟨hfits, htake⟩⟩ | ⟨hplace, fault, htake, hother⟩
  · simp [htake, hplace, hfits]
  · simp [htake, hplace, hfits]
  · simp [htake, hplace, hother]

theorem place?_cases (h : layout.place? evaluate o = some next) :
    (∃ name, o.event = .label name ∧ next.address = layout.address ∧ next.statements = layout.statements) ∨
      ∃ mnemonic operands s, o.event = .statement mnemonic operands ∧ 0 < s.body.size ∧
        next.address = layout.address + s.body.size ∧ next.statements = s :: layout.statements := by
  obtain ⟨line, text, name | ⟨mnemonic, operands⟩⟩ := o
  · simp only [place?] at h
    split at h
    · obtain rfl := Option.some.inj h
      exact .inl ⟨name, rfl, rfl, rfl⟩
    · contradiction
  · simp only [place?] at h
    split at h
    · rename_i body hbody
      obtain rfl := Option.some.inj h
      obtain ⟨p, hspelt, rfl⟩ := Grammar.statement_eq_ok_iff.1 hbody
      exact .inr ⟨mnemonic, operands, _, rfl, size_pos_of_spelt hspelt layout.symbols, rfl, rfl⟩
    · contradiction

theorem address_eq_size_of_place? (h : layout.place? evaluate o = some next)
    (hsized : layout.address = layout.size) : next.address = next.size := by
  rcases place?_cases h with ⟨name, -, haddress, hstatements⟩ | ⟨_, _, s, -, -, haddress, hstatements⟩
  · rw [haddress, hsized, size, size, hstatements]
  · rw [haddress, hsized, size, size, hstatements, List.map_cons, List.sum_cons, Nat.add_comm]

theorem address_of_takeAll {last : Layout} {os : List Occurrence}
    (h : layout.takeAll evaluate os = .ok last) (hsized : layout.address = layout.size)
    (hfits : layout.address ≤ memorySize) : last.address = last.size ∧ last.address ≤ memorySize := by
  induction os generalizing layout with
  | nil =>
    obtain rfl := Except.ok.inj h
    exact ⟨hsized, hfits⟩
  | cons o rest ih =>
    rw [takeAll] at h
    cases htake : layout.take evaluate o with
    | error fault =>
      rw [htake] at h
      contradiction
    | ok next =>
      rw [htake] at h
      obtain ⟨hplace, hroom⟩ := take_eq_ok_iff.1 htake
      apply ih h (address_eq_size_of_place? hplace hsized)
      rcases place?_cases hplace with ⟨name, -, haddress, -⟩ | ⟨_, _, s, hevent, -, -, -⟩
      · rw [haddress]
        exact hfits
      · rw [hevent] at hroom
        exact hroom

theorem overflows_iff_not_fits (hplace : layout.place? evaluate o = some next)
    (hsized : layout.address = layout.size) (hfits : layout.address ≤ memorySize) :
    o.event.Overflows layout next ↔ ¬ o.event.Fits layout next := by
  have hnext := address_eq_size_of_place? hplace hsized
  cases o.event with
  | label name =>
    rw [Event.Overflows, Event.Fits, ← hsized]
    omega
  | statement mnemonic operands =>
    rw [Event.Overflows, Event.Fits, ← hnext, Nat.not_le]

/-! ### A memory filled to the end -/

theorem endsInStatement_cons {rest : List Occurrence} (h : EndsInStatement (o :: rest)) :
    (rest = [] ∧ ∃ mnemonic operands, o.event = .statement mnemonic operands) ∨ EndsInStatement rest := by
  obtain ⟨last, mnemonic, operands, hlast, hevent⟩ := h
  cases rest with
  | nil =>
    obtain rfl := Option.some.inj hlast
    exact .inl ⟨rfl, mnemonic, operands, hevent⟩
  | cons next more => exact .inr ⟨last, mnemonic, operands, hlast, hevent⟩

theorem address_le_of_place? (h : layout.place? evaluate o = some next) : layout.address ≤ next.address := by
  rcases place?_cases h with ⟨name, -, haddress, -⟩ | ⟨_, _, s, -, -, haddress, -⟩ <;> omega

theorem address_le_of_placeAll? {last : Layout} {os : List Occurrence}
    (h : layout.placeAll? evaluate os = some last) : layout.address ≤ last.address := by
  induction os generalizing layout with
  | nil =>
    obtain rfl := Option.some.inj h
    exact Nat.le_refl _
  | cons o rest ih =>
    obtain ⟨next, hplace, hrest⟩ := Option.bind_eq_some_iff.1 h
    exact Nat.le_trans (address_le_of_place? hplace) (ih hrest)

theorem address_lt_of_placeAll? {last : Layout} {os : List Occurrence}
    (h : layout.placeAll? evaluate os = some last) (hend : EndsInStatement os) :
    layout.address < last.address := by
  induction os generalizing layout with
  | nil =>
    obtain ⟨o, _, _, hlast, -⟩ := hend
    contradiction
  | cons o rest ih =>
    obtain ⟨next, hplace, hrest⟩ := Option.bind_eq_some_iff.1 h
    have hle := address_le_of_place? hplace
    rcases endsInStatement_cons hend with ⟨-, mnemonic, operands, hevent⟩ | hlater
    · have hle' := address_le_of_placeAll? hrest
      rcases place?_cases hplace with ⟨name, hlabel, -, -⟩ | ⟨_, _, s, -, hpos, haddress, -⟩
      · rw [hevent] at hlabel
        contradiction
      · omega
    · exact Nat.lt_of_le_of_lt hle (ih hrest hlater)

theorem takeAll_of_placeAll? {last : Layout} {os : List Occurrence}
    (h : layout.placeAll? evaluate os = some last) (hend : os = [] ∨ EndsInStatement os)
    (hfits : last.address ≤ memorySize) : layout.takeAll evaluate os = .ok last := by
  induction os generalizing layout with
  | nil => exact congrArg Except.ok (Option.some.inj h)
  | cons o rest ih =>
    obtain ⟨next, hplace, hrest⟩ := Option.bind_eq_some_iff.1 h
    have hlater := endsInStatement_cons (hend.resolve_left (List.cons_ne_nil o rest))
    have hroom : o.event.Fits layout next := by
      rcases place?_cases hplace with ⟨name, hlabel, haddress, -⟩ | ⟨_, _, s, hevent, -, -, -⟩
      · -- A label is not the last event, and the statement after it still takes a word.
        rw [hlabel]
        rcases hlater with ⟨-, _, _, hevent⟩ | hlater
        · rw [hlabel] at hevent
          contradiction
        · have hlt := address_lt_of_placeAll? hrest hlater
          rw [Event.Fits]
          omega
      · rw [hevent]
        exact Nat.le_trans (address_le_of_placeAll? hrest) hfits
    rw [takeAll, take_eq_ok_iff.2 ⟨hplace, hroom⟩]
    exact ih hrest (hlater.imp_left And.left)

theorem address_eq_size_of_placeAll? {last : Layout} {os : List Occurrence}
    (h : layout.placeAll? evaluate os = some last) (hsized : layout.address = layout.size) :
    last.address = last.size := by
  induction os generalizing layout with
  | nil =>
    obtain rfl := Option.some.inj h
    exact hsized
  | cons o rest ih =>
    obtain ⟨next, hplace, hrest⟩ := Option.bind_eq_some_iff.1 h
    exact ih hrest (address_eq_size_of_place? hplace hsized)

/-! ### Sources -/

theorem takeAll_eq_programTooLarge_iff {os : List Occurrence} {number : Nat} {text : Text} :
    start.takeAll evaluate os = .error ⟨number, text, .programTooLarge⟩ ↔
      ∃ before event after layout next, os = before ++ ⟨number, text, event⟩ :: after ∧
        start.takeAll evaluate before = .ok layout ∧
        layout.place? evaluate ⟨number, text, event⟩ = some next ∧ event.Overflows layout next := by
  rw [takeAll_eq_error_iff]
  constructor
  · rintro ⟨before, ⟨line, text, event⟩, after, layout, rfl, hbefore, hfault, he⟩
    obtain ⟨rfl, rfl, -⟩ := SyntaxError.mk.inj he
    obtain ⟨next, hplace, hroom⟩ := take_eq_programTooLarge_iff.1 hfault
    obtain ⟨hsized, hfits⟩ := address_of_takeAll hbefore rfl (Nat.zero_le _)
    have hover := (overflows_iff_not_fits hplace hsized hfits).2 hroom
    exact ⟨before, event, after, layout, next, rfl, hbefore, hplace, hover⟩
  · rintro ⟨before, event, after, layout, next, rfl, hbefore, hplace, hover⟩
    obtain ⟨hsized, hfits⟩ := address_of_takeAll hbefore rfl (Nat.zero_le _)
    have hroom := (overflows_iff_not_fits hplace hsized hfits).1 hover
    exact ⟨before, _, after, layout, rfl, hbefore, take_eq_programTooLarge_iff.2 ⟨next, hplace, hroom⟩, rfl⟩

theorem ofSource_eq_programTooLarge_iff {source : Source} (hread : source.Scanned) {number : Nat} {text : Text} :
    ofSource evaluate source = .error ⟨number, text, .programTooLarge⟩ ↔
      start.takeAll evaluate (occurrencesFrom 1 source.lines) = .error ⟨number, text, .programTooLarge⟩ := by
  rw [ofSource, addLines_eq_takeAll]
  cases start.takeAll evaluate (occurrencesFrom 1 source.lines) with
  | error e => rfl
  | ok layout =>
    cases hstop : source.stop with
    | none => simp
    | some fault =>
      rcases hread fault hstop with rfl | ⟨reason, rfl⟩ <;> simp

theorem ofSource_of_placeAll? {source : Source} {last : Layout} (hstop : source.stop = none)
    (hplace : start.placeAll? evaluate (occurrencesFrom 1 source.lines) = some last)
    (hend : EndsInStatement (occurrencesFrom 1 source.lines)) (hsize : last.size ≤ memorySize) :
    ofSource evaluate source = .ok last := by
  rw [← address_eq_size_of_placeAll? hplace rfl] at hsize
  rw [ofSource, addLines_eq_takeAll, takeAll_of_placeAll? hplace (.inr hend) hsize, hstop]

end Layout

theorem parse_eq_programTooLarge_iff {source : Source} {number : Nat} {text : Text} :
    parse evaluate source = .error ⟨number, text, .programTooLarge⟩ ↔
      Layout.ofSource evaluate source = .error ⟨number, text, .programTooLarge⟩ := by
  constructor
  · intro h
    cases hlayout : Layout.ofSource evaluate source with
    | error e =>
      have hfirst := parse_of_firstFault (Layout.ofSource_eq_error_iff.1 hlayout)
      exact congrArg Except.error (Except.error.inj (hfirst.symm.trans h))
    | ok layout =>
      obtain ⟨name, hname⟩ := exists_labelMissing_of_layout hlayout h
      contradiction
  · intro h
    exact parse_of_firstFault (Layout.ofSource_eq_error_iff.1 h)

theorem exists_parse_of_layout {source : Source} {layout : Layout}
    (h : Layout.ofSource evaluate source = .ok layout)
    (hdeclared : ∀ r ∈ references source.lines, isDeclared source.lines r.label = true) :
    ∃ p, parse evaluate source = .ok p ∧ p.words.length = layout.size := by
  have hdescribes := Layout.describes_of_ofSource h
  cases hparse : parse evaluate source with
  | error e =>
    rw [parse, h] at hparse
    obtain ⟨r, hr, -⟩ := (Layout.emit_eq_error_iff fun s hs => hdescribes.decided hs).1 hparse
    have hreference := List.mem_of_find?_eq_some hr
    have hmissing := List.find?_some hr
    rw [hdescribes.written_eq] at hreference
    have hmem := (hdescribes.mem_symbols r.label).2 (isDeclared_eq_true_iff.1 (hdeclared r hreference))
    rw [Std.TreeMap.mem_iff_contains] at hmem
    simp [hmem] at hmissing
  | ok p =>
    obtain ⟨layout', hlines, hemitted, -⟩ := exists_addLines_of_parse hparse
    obtain rfl := Except.ok.inj (hlines.symm.trans (Layout.addLines_of_ofSource h))
    refine ⟨p, rfl, ?_⟩
    rw [Program.words, hemitted.length_words, List.map_reverse, List.sum_reverse, Layout.size]

theorem bounds_of_parse {source : Source} {p : Program} (h : parse evaluate source = .ok p) :
    (∀ number label, (number, label) ∈ declarations source.lines → wordsBefore number p.entries ≤ 65535 ∧
      p.symbols[label]? = some (UInt16.ofNat (wordsBefore number p.entries))) ∧
    ∀ e ∈ p.entries, 0 ≤ e.address ∧ e.address ≤ 65535 := by
  obtain ⟨layout, hdescribes, hemitted, hsymbols⟩ := exists_layout_of_parse h
  constructor
  · intro number label hdeclared
    obtain ⟨address, haddress, hsize⟩ := hdescribes.address_of number label hdeclared
    rw [← sizeBefore_reverse, ← hemitted.wordsBefore_eq] at hsize
    rw [hsymbols, haddress, ← hsize, UInt16.ofNat_toNat]
    exact ⟨Nat.le_of_lt_succ address.toNat_lt, rfl⟩
  · intro e he
    obtain ⟨s, hs, -, -, hwords⟩ := hemitted.exists_statement he
    obtain ⟨symbols, phrase, hspelt, hbody, -⟩ := hdescribes.spelt s (List.mem_reverse.1 hs)
    have hpos := size_pos_of_spelt hspelt symbols
    rw [← hbody, ← Body.length_of_emit hwords] at hpos
    have hbounds := hemitted.bounds he
    have htotal : (p.entries.flatMap Program.Entry.words).length ≤ 65536 := length_words_le_of_parse h
    omega

/-- The limit of memory is exact. The first pass reports a program that is too large just if its first event
that cannot be taken is a statement after which more words are taken than there are, or a label that is
otherwise in order when no word is left. A source that fills memory to the last word, with no label after it,
is accepted. In a program every label and every statement has the address of a word in memory. -/
theorem memory_limit_exact {source : Source} (hread : source.Scanned) :
    (∀ number text, Layout.ofSource evaluate source = .error ⟨number, text, .programTooLarge⟩ ↔
      ∃ before event after layout next,
        occurrencesFrom 1 source.lines = before ++ ⟨number, text, event⟩ :: after ∧
        Layout.start.takeAll evaluate before = .ok layout ∧
        layout.place? evaluate ⟨number, text, event⟩ = some next ∧ event.Overflows layout next) ∧
    (∀ number text, parse evaluate source = .error ⟨number, text, .programTooLarge⟩ ↔
      Layout.ofSource evaluate source = .error ⟨number, text, .programTooLarge⟩) ∧
    (∀ last, source.stop = none →
      Layout.start.placeAll? evaluate (occurrencesFrom 1 source.lines) = some last →
      last.size = memorySize → EndsInStatement (occurrencesFrom 1 source.lines) →
      Layout.ofSource evaluate source = .ok last ∧
        ((∀ r ∈ references source.lines, isDeclared source.lines r.label = true) →
          ∃ p, parse evaluate source = .ok p ∧ p.words.length = memorySize)) ∧
    ∀ p, parse evaluate source = .ok p →
      (∀ number label, (number, label) ∈ declarations source.lines → wordsBefore number p.entries ≤ 65535 ∧
        p.symbols[label]? = some (UInt16.ofNat (wordsBefore number p.entries))) ∧
      ∀ e ∈ p.entries, 0 ≤ e.address ∧ e.address ≤ 65535 := by
  refine ⟨fun number text => ?_, fun number text => parse_eq_programTooLarge_iff, ?_, fun p => bounds_of_parse⟩
  · rw [Layout.ofSource_eq_programTooLarge_iff hread]
    exact Layout.takeAll_eq_programTooLarge_iff
  · intro last hstop hplace hsize hend
    have hlayout := Layout.ofSource_of_placeAll? hstop hplace hend (Nat.le_of_eq hsize)
    refine ⟨hlayout, fun hdeclared => ?_⟩
    rw [← hsize]
    exact exists_parse_of_layout hlayout hdeclared

/-! ### A source as long as memory -/

def dataLine : Text := ascii "DAT 0"

theorem occurrencesFrom_append (number : Nat) (first second : List Text) :
    occurrencesFrom number (first ++ second) =
      occurrencesFrom number first ++ occurrencesFrom (number + first.length) second := by
  induction first generalizing number with
  | nil => rfl
  | cons line rest ih =>
    rw [List.cons_append, occurrencesFrom, occurrencesFrom, ih, List.append_assoc, List.length_cons,
      Nat.add_right_comm, Nat.add_assoc number]

theorem occurrencesFrom_dataLine (number : Nat) (rest : List Text) :
    occurrencesFrom number (dataLine :: rest) =
      ⟨number, dataLine, .statement (ascii "DAT") [ascii "0"]⟩ :: occurrencesFrom (number + 1) rest := by
  have hrow : rowEvents (Token.ofLine dataLine) = [.statement (ascii "DAT") [ascii "0"]] := by decide +kernel
  rw [occurrencesFrom, hrow]
  rfl

theorem endsInStatement_replicate (number n : Nat) :
    EndsInStatement (occurrencesFrom number (List.replicate (n + 1) dataLine)) := by
  induction n generalizing number with
  | zero =>
    rw [List.replicate_one, occurrencesFrom_dataLine]
    exact ⟨_, _, _, rfl, rfl⟩
  | succ n ih =>
    obtain ⟨o, mnemonic, operands, hlast, hevent⟩ := ih (number + 1)
    rw [List.replicate_succ, occurrencesFrom_dataLine]
    refine ⟨o, mnemonic, operands, ?_, hevent⟩
    rw [List.getLast?_cons, hlast]
    rfl

theorem exists_placeAll?_replicate (layout : Layout) (number n : Nat) :
    ∃ last, layout.placeAll? Constant.closed (occurrencesFrom number (List.replicate n dataLine)) = some last ∧
      last.size = layout.size + n ∧ last.symbols = layout.symbols := by
  have hzero : numberWord Constant.closed (ascii "0") = .ok 0 := by decide +kernel
  have hspelt : (Grammar.Phrase.data [.number 0]).Spelt Constant.closed [ascii "DAT", ascii "0"] :=
    .data (by decide +kernel) (List.cons_ne_nil [ascii "0"] []) (.cons (.atom (.number hzero)) .nil)
  induction n generalizing layout number with
  | zero => exact ⟨layout, rfl, rfl, rfl⟩
  | succ n ih =>
    have hstatement := Grammar.statement_of_spelt hspelt layout.symbols
    rw [List.replicate_succ, occurrencesFrom_dataLine, Layout.placeAll?]
    simp only [Layout.place?, hstatement, Option.bind_some]
    obtain ⟨last, hlast, hsize, hsymbols⟩ := ih _ (number + 1)
    refine ⟨last, hlast, ?_, hsymbols⟩
    have hone : ((Grammar.Phrase.data [.number 0]).body layout.symbols).size = 1 := rfl
    rw [hsize, Layout.size, Layout.size, List.map_cons, List.sum_cons, hone]
    omega

theorem references_replicate (n : Nat) : references (List.replicate n dataLine) = [] := by
  have hnone : (lineStatement (Token.ofLine dataLine)).tail.filter Grammar.isReference = [] := by decide +kernel
  apply List.flatMap_eq_nil_iff.2
  intro w hw
  obtain ⟨⟨line, number⟩, hmem, hwritten⟩ := List.mem_filterMap.1 hw
  obtain rfl := List.eq_of_mem_replicate (List.fst_mem_of_mem_zipIdx hmem)
  simp only [Written.ofLine?] at hwritten
  split at hwritten
  · contradiction
  · obtain rfl := Option.some.inj hwritten
    rw [Written.references, hnone, List.map_nil]

theorem memory_limit_exact_full :
    (∃ p, parse Constant.closed ⟨List.replicate 65536 dataLine, none⟩ = .ok p ∧ p.words.length = 65536) ∧
      parse Constant.closed ⟨List.replicate 65536 dataLine ++ [ascii ":end"], none⟩ =
        .error ⟨65537, ascii ":end", .programTooLarge⟩ := by
  obtain ⟨last, hplace, hsize, hsymbols⟩ := exists_placeAll?_replicate .start 1 65536
  have hend : EndsInStatement (occurrencesFrom 1 (List.replicate 65536 dataLine)) :=
    endsInStatement_replicate 1 65535
  have hfull : last.size = memorySize := hsize.trans (Nat.zero_add memorySize)
  have hscanned : ∀ lines, Source.Scanned ⟨lines, none⟩ := by
    intro lines fault hfault
    contradiction
  constructor
  · obtain ⟨-, -, hexact, -⟩ := memory_limit_exact (hscanned (List.replicate 65536 dataLine))
    apply (hexact last rfl hplace hfull hend).2
    simp only [references_replicate, List.not_mem_nil, false_implies, implies_true]
  · have hrow : rowEvents (Token.ofLine (ascii ":end")) = [.label (ascii "end")] := by decide +kernel
    have hvalid : (isLabel (ascii "end") && !isReserved (ascii "end") &&
        !last.symbols.contains (ascii "end")) = true := by
      rw [hsymbols]
      decide +kernel
    have haddress := Layout.address_eq_size_of_placeAll? hplace rfl
    have htaken := Layout.takeAll_of_placeAll? hplace (.inr hend) (by rw [haddress, hfull])
    obtain ⟨hover, hparse, -, -⟩ := memory_limit_exact (hscanned (List.replicate 65536 dataLine ++ [ascii ":end"]))
    apply (hparse 65537 (ascii ":end")).2
    apply (hover 65537 (ascii ":end")).2
    refine ⟨_, .label (ascii "end"), [], last, _, ?_, htaken, if_pos hvalid, hfull⟩
    rw [occurrencesFrom_append, List.length_replicate, occurrencesFrom, hrow]
    rfl

end
end Asm16.Assembly
