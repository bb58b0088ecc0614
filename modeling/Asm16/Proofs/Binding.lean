import Asm16.Assembly.Statement
import Asm16.Proofs.Encoding

/-! The second pass on one statement: labels are filled in, then the statement is encoded. Neither
changes the number of words that the statement was counted with in the first pass. -/

namespace Asm16.Assembly

theorem map_eq_ok_iff {ε α β : Type} {x : Except ε α} {f : α → β} {b : β} :
    x.map f = .ok b ↔ ∃ a, x = .ok a ∧ b = f a := by
  cases x with
  | error e => simp [Except.map]
  | ok a => simp [Except.map, eq_comm]

theorem map_eq_error_iff {ε α β : Type} {x : Except ε α} {f : α → β} {e : ε} :
    x.map f = .error e ↔ x = .error e := by
  cases x with
  | error e => simp [Except.map]
  | ok a => simp [Except.map]

def Extends (symbols final : Symbols) : Prop :=
  ∀ (label : Text) (address : UInt16), symbols[label]? = some address → final[label]? = some address

theorem Extends.refl (symbols : Symbols) : Extends symbols symbols := fun _ _ h => h

theorem Extends.trans {first second third : Symbols} (h : Extends first second)
    (h' : Extends second third) : Extends first third :=
  fun label address hlabel => h' label address (h label address hlabel)

/-- Binding looks at the label of a value only, so it makes no difference which address was there before. -/
theorem bindValue_located (symbols final : Symbols) (v : Value) :
    bindValue final (located symbols v) = bindValue final v := by
  obtain ⟨word, label | label⟩ := v
  · rfl
  · rfl

namespace Body

def bind (symbols : Symbols) : Body → Except Fault Body
  | data values => (values.mapM (bindValue symbols)).map data
  | instruction inst => (bindInstruction symbols inst).map instruction

def encode : Body → Except Fault (List UInt16)
  | data values => .ok (values.map Value.word)
  | instruction inst => inst.encode.map Code.words

end Body

theorem dataWordsFrom_eq (symbols : Symbols) (words : List UInt16) (values : List Value) :
    dataWordsFrom symbols words values =
      (values.mapM (bindValue symbols)).map fun bound => words.reverse ++ bound.map Value.word := by
  induction values generalizing words with
  | nil => simp [dataWordsFrom, Except.map, pure, Except.pure]
  | cons v rest ih =>
    rw [dataWordsFrom, List.mapM_cons]
    cases bindValue symbols v with
    | error e => rfl
    | ok bound =>
      simp only [ih]
      cases rest.mapM (bindValue symbols) with
      | error e => rfl
      | ok bounds => simp [Except.map, pure, Except.pure, Bind.bind, Except.bind]

theorem Body.emit_eq (symbols : Symbols) (body : Body) :
    body.emit symbols = (body.bind symbols).bind Body.encode := by
  cases body with
  | data values =>
    rw [emit, dataWordsFrom_eq, Body.bind]
    cases values.mapM (bindValue symbols) <;> rfl
  | instruction inst =>
    rw [emit, Body.bind]
    cases bindInstruction symbols inst <;> rfl

theorem needsWord_of_bindOperand {symbols : Symbols} {op bound : Operand}
    (h : bindOperand symbols op = .ok bound) : bound.needsWord = op.needsWord := by
  unfold bindOperand at h
  split at h
  case h_6 => rw [Except.ok.inj h]
  all_goals
    obtain ⟨v, _, rfl⟩ := map_eq_ok_iff.1 h
    rfl

theorem bindInstruction_basic_eq_ok_iff {symbols : Symbols} {op : BasicOp} {a b : Operand}
    {bound : Instruction} :
    bindInstruction symbols (.basic op a b) = .ok bound ↔ ∃ boundA boundB,
      bindOperand symbols a = .ok boundA ∧ bindOperand symbols b = .ok boundB ∧
        bound = .basic op boundA boundB := by
  simp only [bindInstruction]
  cases bindOperand symbols a with
  | error e => simp
  | ok boundA => simp [map_eq_ok_iff]

theorem size_of_bindInstruction {symbols : Symbols} {inst bound : Instruction}
    (h : bindInstruction symbols inst = .ok bound) : bound.size = inst.size := by
  cases inst with
  | basic op a b =>
    obtain ⟨boundA, boundB, ha, hb, rfl⟩ := bindInstruction_basic_eq_ok_iff.1 h
    simp only [Instruction.size, Instruction.operands, List.countP_cons,
      needsWord_of_bindOperand ha, needsWord_of_bindOperand hb]
  | nonBasic op a =>
    obtain ⟨boundA, ha, rfl⟩ := map_eq_ok_iff.1 h
    simp only [Instruction.size, Instruction.operands, List.countP_cons, needsWord_of_bindOperand ha]

theorem length_of_mapM {α β : Type} {f : α → Except Fault β} {values : List α} {bound : List β}
    (h : values.mapM f = .ok bound) : bound.length = values.length := by
  induction values generalizing bound with
  | nil =>
    obtain rfl := Except.ok.inj h
    rfl
  | cons v rest ih =>
    rw [List.mapM_cons] at h
    cases hv : f v with
    | error e => simp [hv, Bind.bind, Except.bind] at h
    | ok b =>
      cases hrest : rest.mapM f with
      | error e => simp [hv, hrest, Bind.bind, Except.bind] at h
      | ok bs =>
        obtain rfl : b :: bs = bound := by
          simpa [hv, hrest, Bind.bind, Except.bind, pure, Except.pure] using h
        rw [List.length_cons, List.length_cons, ih hrest]

namespace Body

theorem size_of_bind {symbols : Symbols} {body bound : Body} (h : body.bind symbols = .ok bound) :
    bound.size = body.size := by
  cases body with
  | data values =>
    obtain ⟨bounds, hbounds, rfl⟩ := map_eq_ok_iff.1 h
    exact length_of_mapM hbounds
  | instruction inst =>
    obtain ⟨boundInst, hinst, rfl⟩ := map_eq_ok_iff.1 h
    exact size_of_bindInstruction hinst

theorem length_of_encode {body : Body} {words : List UInt16} (h : body.encode = .ok words) :
    words.length = body.size := by
  cases body with
  | data values =>
    obtain rfl := Except.ok.inj h
    exact List.length_map _
  | instruction inst =>
    obtain ⟨code, hcode, rfl⟩ := map_eq_ok_iff.1 h
    exact Instruction.length_of_encode hcode

theorem emit_eq_ok_iff {symbols : Symbols} {body : Body} {words : List UInt16} :
    body.emit symbols = .ok words ↔
      ∃ bound, body.bind symbols = .ok bound ∧ bound.encode = .ok words := by
  rw [emit_eq]
  cases body.bind symbols with
  | error e => simp [Except.bind]
  | ok bound => simp [Except.bind]

theorem length_of_emit {symbols : Symbols} {body : Body} {words : List UInt16}
    (h : body.emit symbols = .ok words) : words.length = body.size := by
  obtain ⟨bound, hbind, hencode⟩ := emit_eq_ok_iff.1 h
  rw [length_of_encode hencode, size_of_bind hbind]

end Body
end Asm16.Assembly
