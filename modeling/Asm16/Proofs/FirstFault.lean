import Asm16.Proofs.SecondPass
import Mathlib.Order.Bounds.Basic

/-! Faults and where they are reported. The first pass stops at the first line that it cannot take, so
its error is settled by the lines up to that one and by no line after it. A label that is missing is
found in the second pass, and so only if every line could be taken. -/

namespace Asm16

/-- Whether the tokens of a statement can be at fault in this way by themselves. -/
def Fault.isSpelling : Fault → Bool
  | commaMissing | operandMissing | argumentsExcessive => true
  | notInstruction _ | notNumber _ | notValue _ | notExpression _ => true
  | _ => false

/-- Whether laying out a line can be at fault in this way: in a label that it declares, or in the room that
it takes. -/
def Fault.isLayout : Fault → Bool
  | labelInvalid _ | labelReserved _ | labelDuplicated | programTooLarge => true
  | _ => false

namespace Assembly

section
variable {evaluate : Evaluator} {symbols : Symbols} {fault : Fault}

theorem isSpelling_of_expressionWord {token : Text} (h : expressionWord evaluate token = .error fault) :
    fault.isSpelling = true := by
  simp only [expressionWord] at h
  repeat' split at h
  all_goals cases h
  all_goals rfl

theorem isSpelling_of_numberWord {token : Text} (h : numberWord evaluate token = .error fault) :
    fault.isSpelling = true := by
  unfold numberWord at h
  split at h
  · exact isSpelling_of_expressionWord h
  · repeat' split at h
    all_goals cases h
    all_goals rfl

theorem isSpelling_of_atom {token : Text} (h : atom evaluate token = .error fault) :
    fault.isSpelling = true := by
  unfold atom at h
  repeat' split at h
  all_goals cases h
  · rfl
  · rename_i hnumber
    exact isSpelling_of_numberWord hnumber

theorem isSpelling_of_value {tokens : List Text} (h : value evaluate tokens = .error fault) :
    fault.isSpelling = true := by
  unfold value at h
  split at h
  · exact isSpelling_of_atom h
  · repeat' split at h
    all_goals cases h
    · rename_i hnumber
      exact isSpelling_of_numberWord hnumber
    · rfl
  · cases h
    rfl

theorem isSpelling_of_bracketed {whole : Text} {inner : List Text}
    (h : bracketed evaluate symbols whole inner = .error fault) : fault.isSpelling = true := by
  simp only [bracketed] at h
  split at h
  · repeat' split at h
    all_goals cases h
    · rfl
    · rename_i hatom
      exact isSpelling_of_atom hatom
  · split at h
    · repeat' split at h
      all_goals cases h
      · rfl
      · rename_i hatom
        exact isSpelling_of_atom hatom
    · cases h
      rfl
  · cases h
    rfl

theorem isSpelling_of_operand {tokens : List Text} (h : operand evaluate symbols tokens = .error fault) :
    fault.isSpelling = true := by
  unfold operand at h
  split at h
  · cases h
    rfl
  · split at h
    · split at h
      · exact isSpelling_of_bracketed h
      · cases h
        rfl
    · repeat' split at h
      all_goals cases h
      rename_i hvalue
      exact isSpelling_of_value hvalue

theorem isSpelling_of_dataFrom {values : List Value} {arguments : List (List Text)}
    (h : dataFrom evaluate values arguments = .error fault) : fault.isSpelling = true := by
  induction arguments generalizing values with
  | nil => cases h
  | cons argument rest ih =>
    rw [dataFrom] at h
    split at h
    · exact ih h
    · rename_i hvalue
      cases h
      exact isSpelling_of_value hvalue

theorem isSpelling_of_nonBasic {op : NonBasicOp} {arguments : List (List Text)}
    (h : nonBasic evaluate symbols op arguments = .error fault) : fault.isSpelling = true := by
  unfold nonBasic at h
  repeat' split at h
  all_goals cases h
  · rename_i hoperand
    exact isSpelling_of_operand hoperand
  · rfl

theorem isSpelling_of_basic {op : BasicOp} {arguments : List (List Text)}
    (h : basic evaluate symbols op arguments = .error fault) : fault.isSpelling = true := by
  unfold basic at h
  repeat' split at h
  all_goals cases h
  · rename_i hleft
    exact isSpelling_of_operand hleft
  · rename_i hright
    exact isSpelling_of_operand hright
  · rfl
  · rfl

theorem isSpelling_of_statement {mnemonic : Text} {rest : List Text}
    (h : statement evaluate symbols mnemonic rest = .error fault) : fault.isSpelling = true := by
  simp only [statement] at h
  split at h
  · split at h
    · cases h
      rfl
    · exact isSpelling_of_dataFrom h
  · split at h
    · exact isSpelling_of_nonBasic h
    · split at h
      · split at h
        · cases h
          rfl
        · exact isSpelling_of_basic h
      · cases h
        rfl

theorem isLayout_of_declare {address : Nat} {tokens : List Text}
    (h : Layout.declare address symbols tokens = .error fault) : fault.isLayout = true := by
  fun_induction Layout.declare address symbols tokens with
  | case1 | case3 | case9 => contradiction
  | case2 | case4 | case5 | case6 | case7 =>
    cases h
    rfl
  | case8 _ _ _ _ _ _ _ ih => exact ih h

theorem addLine_fault {number : Nat} {line : Text} {layout : Layout}
    (h : layout.addLine evaluate number line = .error fault) :
    fault.isSpelling = true ∨ fault.isLayout = true := by
  unfold Layout.addLine at h
  split at h
  · rename_i hdeclare
    cases h
    exact .inr (isLayout_of_declare hdeclare)
  · contradiction
  · split at h
    · rename_i hstatement
      cases h
      exact .inl (isSpelling_of_statement hstatement)
    · simp only at h
      split at h
      · cases h
        exact .inr rfl
      · contradiction

end

/-- The first lines of a source alone. What stops the reading stands for the line after the last. -/
def Source.upTo (k : Nat) (source : Source) : Source :=
  if k ≤ source.lines.length then ⟨source.lines.take k, none⟩ else source

def Source.Scanned (source : Source) : Prop :=
  ∀ fault, source.stop = some fault → fault = .lineTooLong ∨ ∃ reason, fault = .unreadable reason

theorem scanned_ofText (t : Text) : (Source.ofText t).Scanned := by
  intro fault h
  have hstop : (if (Text.lines t).overlong then some Fault.lineTooLong else none) = some fault := h
  split at hstop
  · exact .inl (Option.some.inj hstop).symm
  · contradiction

/-- A fault that the first pass meets: the lines before it are laid out, and then a line cannot be taken
or reading has stopped. -/
inductive FirstFault (evaluate : Evaluator) (source : Source) (e : SyntaxError) : Prop
  | line (before after : List Text) (layout : Layout) (hlines : source.lines = before ++ e.text :: after)
    (hbefore : Layout.addLines evaluate 1 .start before = .ok layout)
    (hnumber : e.line = before.length + 1) (hfault : layout.addLine evaluate e.line e.text = .error e.cause)
  | stop (layout : Layout) (hlines : Layout.addLines evaluate 1 .start source.lines = .ok layout)
    (hstop : source.stop = some e.cause) (htext : e.text = []) (hnumber : e.line = source.lines.length + 1)

namespace Layout

variable {evaluate : Evaluator}

theorem exists_of_addLines_eq_error {number : Nat} {layout : Layout} {lines : List Text} {e : SyntaxError}
    (h : addLines evaluate number layout lines = .error e) :
    ∃ before after middle, lines = before ++ e.text :: after ∧ e.line = number + before.length ∧
      addLines evaluate number layout before = .ok middle ∧
        middle.addLine evaluate e.line e.text = .error e.cause := by
  induction lines generalizing number layout with
  | nil => contradiction
  | cons line rest ih =>
    rw [addLines] at h
    split at h
    · rename_i hfault
      cases h
      exact ⟨[], rest, layout, rfl, rfl, rfl, hfault⟩
    · rename_i next hnext
      obtain ⟨before, after, middle, rfl, hnumber, hbefore, hfault⟩ := ih h
      refine ⟨line :: before, after, middle, rfl, ?_, ?_, hfault⟩
      · rw [hnumber, List.length_cons]
        omega
      · rw [addLines, hnext]
        exact hbefore

theorem exists_addLines_take {number : Nat} {layout last : Layout} {lines : List Text}
    (h : addLines evaluate number layout lines = .ok last) (k : Nat) :
    ∃ middle, addLines evaluate number layout (lines.take k) = .ok middle := by
  rw [← List.take_append_drop k lines, addLines_append] at h
  cases hfirst : addLines evaluate number layout (lines.take k) with
  | ok middle => exact ⟨middle, rfl⟩
  | error e =>
    rw [hfirst] at h
    contradiction

theorem ofSource_upTo {source : Source} {k : Nat} (hk : k ≤ source.lines.length) {layout : Layout}
    (h : addLines evaluate 1 start (source.lines.take k) = .ok layout) :
    ofSource evaluate (source.upTo k) = .ok layout := by
  rw [Source.upTo, if_pos hk, ofSource, h]

theorem ofSource_eq_error_iff {source : Source} {e : SyntaxError} :
    ofSource evaluate source = .error e ↔ FirstFault evaluate source e := by
  unfold ofSource
  constructor
  · intro h
    split at h
    · rename_i e' he
      cases h
      obtain ⟨before, after, middle, hlines, hnumber, hbefore, hfault⟩ := exists_of_addLines_eq_error he
      exact .line before after middle hlines hbefore (hnumber.trans (Nat.add_comm _ _)) hfault
    · rename_i layout hlayout
      split at h
      · rename_i fault hstop
        cases h
        exact .stop layout hlayout hstop rfl rfl
      · contradiction
  · intro h
    cases h with
    | line before after layout hlines hbefore hnumber hfault =>
      obtain ⟨number, text, cause⟩ := e
      have herror : addLines evaluate 1 start source.lines = .error ⟨number, text, cause⟩ := by
        rw [hlines, addLines_append, hbefore]
        change addLines evaluate (1 + before.length) layout (text :: after) = _
        rw [Nat.add_comm, ← hnumber, addLines, hfault]
      rw [herror]
    | stop layout hlines hstop htext hnumber =>
      obtain ⟨number, text, cause⟩ := e
      obtain rfl : text = [] := htext
      obtain rfl : number = source.lines.length + 1 := hnumber
      rw [hlines, hstop]

end Layout

namespace FirstFault

variable {evaluate : Evaluator} {source : Source} {e : SyntaxError}

theorem upTo_iff : FirstFault evaluate (source.upTo e.line) e ↔ FirstFault evaluate source e := by
  unfold Source.upTo
  split
  · rename_i hle
    constructor
    · intro h
      cases h with
      | line before after layout hlines hbefore hnumber hfault =>
        refine .line before (after ++ source.lines.drop e.line) layout ?_ hbefore hnumber hfault
        calc source.lines = source.lines.take e.line ++ source.lines.drop e.line :=
              (List.take_append_drop _ _).symm
          _ = before ++ e.text :: after ++ source.lines.drop e.line := congrArg (· ++ _) hlines
          _ = before ++ e.text :: (after ++ source.lines.drop e.line) := List.append_assoc ..
      | stop layout hlines hstop htext hnumber => contradiction
    · intro h
      cases h with
      | line before after layout hlines hbefore hnumber hfault =>
        refine .line before [] layout ?_ hbefore hnumber hfault
        change source.lines.take e.line = before ++ [e.text]
        rw [hlines, hnumber, List.take_length_add_append]
        rfl
      | stop layout hlines hstop htext hnumber => omega
  · rfl

theorem exists_ofSource_upTo (h : FirstFault evaluate source e) {k : Nat} (hk : k < e.line) :
    ∃ layout, Layout.ofSource evaluate (source.upTo k) = .ok layout := by
  -- Fewer lines than up to the one at fault are among those that were laid out before it.
  cases h with
  | line before after layout hlines hbefore hnumber hfault =>
    obtain ⟨middle, hmiddle⟩ := Layout.exists_addLines_take hbefore k
    have hle : k ≤ before.length := by omega
    refine ⟨middle, Layout.ofSource_upTo ?_ ?_⟩
    · rw [hlines, List.length_append]
      omega
    · rw [hlines, List.take_append_of_le_length hle]
      exact hmiddle
  | stop layout hlines hstop htext hnumber =>
    obtain ⟨middle, hmiddle⟩ := Layout.exists_addLines_take hlines k
    exact ⟨middle, Layout.ofSource_upTo (by omega) hmiddle⟩

theorem text_eq (h : FirstFault evaluate source e) :
    (∃ n, e.line = n + 1 ∧ source.lines[n]? = some e.text) ∨
      (e.line = source.lines.length + 1 ∧ e.text = [] ∧ source.stop = some e.cause) := by
  cases h with
  | line before after layout hlines hbefore hnumber hfault =>
    refine .inl ⟨before.length, hnumber, ?_⟩
    rw [hlines, List.getElem?_append_right (Nat.le_refl _), Nat.sub_self]
    rfl
  | stop layout hlines hstop htext hnumber => exact .inr ⟨hnumber, htext, hstop⟩

theorem cause_ne_labelMissing (h : FirstFault evaluate source e) (hread : source.Scanned) (name : Text) :
    e.cause ≠ .labelMissing name := by
  intro hcause
  cases h with
  | line before after layout hlines hbefore hnumber hfault =>
    rw [hcause] at hfault
    rcases addLine_fault hfault with hspelling | hlayout
    · contradiction
    · contradiction
  | stop layout hlines hstop htext hnumber =>
    rw [hcause] at hstop
    rcases hread _ hstop with hlong | ⟨reason, hreason⟩
    · contradiction
    · contradiction

end FirstFault

theorem parse_of_firstFault {evaluate : Evaluator} {source : Source} {e : SyntaxError}
    (h : FirstFault evaluate source e) : parse evaluate source = .error e := by
  rw [parse, Layout.ofSource_eq_error_iff.2 h]

theorem exists_labelMissing_of_layout {evaluate : Evaluator} {source : Source} {layout : Layout}
    {e : SyntaxError} (hlayout : Layout.ofSource evaluate source = .ok layout)
    (h : parse evaluate source = .error e) : ∃ name, e.cause = .labelMissing name := by
  rw [parse, hlayout] at h
  have hdescribes := Layout.describes_of_ofSource hlayout
  obtain ⟨r, -, rfl⟩ := (Layout.emit_eq_error_iff fun s hs => hdescribes.decided hs).1 h
  exact ⟨r.label, rfl⟩

theorem exists_ofSource_upTo {evaluate : Evaluator} {source : Source} {layout : Layout}
    (h : Layout.ofSource evaluate source = .ok layout) (k : Nat) :
    ∃ middle, Layout.ofSource evaluate (source.upTo k) = .ok middle := by
  by_cases hk : k ≤ source.lines.length
  · obtain ⟨middle, hmiddle⟩ := Layout.exists_addLines_take (Layout.addLines_of_ofSource h) k
    exact ⟨middle, Layout.ofSource_upTo hk hmiddle⟩
  · rw [Source.upTo, if_neg hk]
    exact ⟨layout, h⟩

/-- Every failure is a fault at a numbered line. If the first pass fails, it is the least number of lines
that fail by themselves, with the text of that line, or none if it could not be read; and whatever other
lines follow these, the error is the same. A missing label is reported only if all lines pass. -/
theorem parse_eq_error_first {evaluate : Evaluator} {source : Source} (hread : source.Scanned)
    {e : SyntaxError} (h : parse evaluate source = .error e) :
    (∃ fault, e.toError = ⟨[.line e.line e.text], some fault⟩) ∧
      (∀ e', Layout.ofSource evaluate source = .error e' →
        e = e' ∧
        IsLeast {k | ∃ e', Layout.ofSource evaluate (source.upTo k) = .error e'} e.line ∧
        ((∃ n, e.line = n + 1 ∧ source.lines[n]? = some e.text) ∨
          (e.line = source.lines.length + 1 ∧ e.text = [] ∧ source.stop = some e.cause)) ∧
        ∀ other : Source, other.upTo e.line = source.upTo e.line → parse evaluate other = .error e) ∧
      ((∃ name, e.cause = .labelMissing name) ↔
        ∀ k, ∃ layout, Layout.ofSource evaluate (source.upTo k) = .ok layout) := by
  refine ⟨⟨e.cause, rfl⟩, ?_, ?_⟩
  · intro e' he'
    have hfault := Layout.ofSource_eq_error_iff.1 he'
    obtain rfl := Except.error.inj (h.symm.trans (parse_of_firstFault hfault))
    refine ⟨rfl, ⟨?_, ?_⟩, hfault.text_eq, ?_⟩
    · exact ⟨e, Layout.ofSource_eq_error_iff.2 (FirstFault.upTo_iff.2 hfault)⟩
    -- With fewer lines nothing is at fault, and with as many nothing else is looked at.
    · rintro k ⟨e', hk⟩
      by_contra hlt
      obtain ⟨layout, hlayout⟩ := hfault.exists_ofSource_upTo (Nat.lt_of_not_le hlt)
      rw [hlayout] at hk
      contradiction
    · intro other hother
      apply parse_of_firstFault
      rw [← FirstFault.upTo_iff, hother, FirstFault.upTo_iff]
      exact hfault
  · cases hlayout : Layout.ofSource evaluate source with
    | ok layout =>
      exact ⟨fun _ => exists_ofSource_upTo hlayout, fun _ => exists_labelMissing_of_layout hlayout h⟩
    | error e' =>
      have hfault := Layout.ofSource_eq_error_iff.1 hlayout
      obtain rfl := Except.error.inj (h.symm.trans (parse_of_firstFault hfault))
      constructor
      · rintro ⟨name, hname⟩
        exact absurd hname (hfault.cause_ne_labelMissing hread name)
      · intro hall
        obtain ⟨layout, hpass⟩ := hall e.line
        rw [Layout.ofSource_eq_error_iff.2 (FirstFault.upTo_iff.2 hfault)] at hpass
        contradiction

def faultySource : Source := Source.ofText (ascii "SET A, gone\nHALT\n:PC SET B, 1")

theorem parse_eq_error_first_faultySource :
    (faultySource.Scanned ∧
      parse Constant.closed faultySource = .error ⟨2, ascii "HALT", .notInstruction (ascii "HALT")⟩ ∧
      IsLeast {k | ∃ e', Layout.ofSource Constant.closed (faultySource.upTo k) = .error e'} 2 ∧
      parse Constant.closed (Source.ofText (ascii "SET A, gone\r\nHALT\nHALT")) =
        .error ⟨2, ascii "HALT", .notInstruction (ascii "HALT")⟩) ∧
    parse Constant.closed ⟨[ascii "SET A, gone"], some .lineTooLong⟩ = .error ⟨2, [], .lineTooLong⟩ ∧
      IsLeast {k | ∃ e', Layout.ofSource Constant.closed
        (Source.upTo k ⟨[ascii "SET A, gone"], some .lineTooLong⟩) = .error e'} 2 := by
  have hfaulty : (parse Constant.closed faultySource).map Program.words =
      .error ⟨2, ascii "HALT", .notInstruction (ascii "HALT")⟩ := by decide +kernel
  have hlayout : (Layout.ofSource Constant.closed faultySource).map Layout.address =
      .error ⟨2, ascii "HALT", .notInstruction (ascii "HALT")⟩ := by decide +kernel
  have hlong : (parse Constant.closed ⟨[ascii "SET A, gone"], some .lineTooLong⟩).map Program.words =
      .error ⟨2, [], .lineTooLong⟩ := by decide +kernel
  have hlongLayout :
      (Layout.ofSource Constant.closed ⟨[ascii "SET A, gone"], some .lineTooLong⟩).map Layout.address =
        .error ⟨2, [], .lineTooLong⟩ := by decide +kernel
  have hscanned : Source.Scanned ⟨[ascii "SET A, gone"], some .lineTooLong⟩ :=
    fun fault hstop => .inl (Option.some.inj hstop).symm
  rw [map_eq_error_iff] at hfaulty hlayout hlong hlongLayout
  obtain ⟨-, hleast, -, hother⟩ := (parse_eq_error_first (scanned_ofText _) hfaulty).2.1 _ hlayout
  have hleast' := ((parse_eq_error_first hscanned hlong).2.1 _ hlongLayout).2.1
  exact ⟨⟨scanned_ofText _, hfaulty, hleast, hother _ (by decide +kernel)⟩, hlong, hleast'⟩

end Assembly
end Asm16
