import Asm16.Assembly.Operand
import Asm16.Constant.Eval
import Asm16.Proofs.Name
import Asm16.Proofs.Numeral
import Mathlib.Data.List.Forall2
import Mathlib.Data.Nat.Digits.Defs

/-! Numerals by their form. A string of digits stands for the sum of its digits, each times a power of the base,
and a digit may be in either case. A numeral is such a string behind a base mark, behind a zero, or from a digit
other than zero on. The reader gives the value of every numeral, however long it is, and refuses every other
text. -/

namespace Asm16

theorem exists_forall₂_iff {α β : Type} {R : α → β → Prop} {as : List α} :
    (∃ bs, List.Forall₂ R as bs) ↔ ∀ a ∈ as, ∃ b, R a b := by
  induction as with
  | nil => simp
  | cons a rest ih =>
    rw [List.forall_mem_cons, ← ih]
    constructor
    · rintro ⟨_, hall⟩
      obtain ⟨b, bs, hfirst, hrest, rfl⟩ := List.forall₂_cons_left_iff.1 hall
      exact ⟨⟨b, hfirst⟩, bs, hrest⟩
    · rintro ⟨⟨b, hfirst⟩, bs, hrest⟩
      exact ⟨b :: bs, .cons hfirst hrest⟩

namespace Text

def IsDigitOf (base : Nat) (b : UInt8) (d : Nat) : Prop := d < base ∧ (b = digit d ∨ b = upperByte (digit d))

/-- A string of digits and the number that it stands for, the last digit counting ones. -/
def Positional (base : Nat) (t : Text) (n : Nat) : Prop :=
  ∃ ds, List.Forall₂ (IsDigitOf base) t ds ∧ n = Nat.ofDigits base ds.reverse

theorem digitValue?_eq_some_iff {b : UInt8} {d : Nat} :
    digitValue? b = some d ↔ d < 36 ∧ (b = digit d ∨ b = upperByte (digit d)) := by
  constructor
  · have hall : ∀ b : UInt8,
        (digitValue? b).all (fun d => d < 36 && (b == digit d || b == upperByte (digit d))) = true :=
      forall_byte (by decide +kernel)
    intro h
    have hb := hall b
    rw [h] at hb
    simpa using hb
  · have hboth : ∀ d < 36, digitValue? (digit d) = some d ∧ digitValue? (upperByte (digit d)) = some d := by
      decide +kernel
    rintro ⟨hd, rfl | rfl⟩
    · exact (hboth d hd).1
    · exact (hboth d hd).2

theorem digitOf?_eq_some_iff {base : Nat} (hbase : base ≤ 36) {b : UInt8} {d : Nat} :
    digitOf? base b = some d ↔ IsDigitOf base b d := by
  rw [digitOf?, Option.filter_eq_some_iff, digitValue?_eq_some_iff, IsDigitOf, decide_eq_true_eq]
  constructor
  · rintro ⟨⟨-, hb⟩, hd⟩
    exact ⟨hd, hb⟩
  · rintro ⟨hd, hb⟩
    exact ⟨⟨hd.trans_le hbase, hb⟩, hd⟩

theorem readFrom?_eq_some_iff {base : Nat} (hbase : base ≤ 36) {n m : Nat} {t : Text} :
    readFrom? base n t = some m ↔
      ∃ ds, List.Forall₂ (IsDigitOf base) t ds ∧ m = n * base ^ t.length + Nat.ofDigits base ds.reverse := by
  induction t generalizing n with
  | nil => simp [readFrom?, eq_comm]
  | cons b rest ih =>
    -- The first digit counts as many places as there are digits behind it, on either side of the equation.
    have hplaces : ∀ (d : Nat) (ds : List Nat), ds.length = rest.length →
        (n * base + d) * base ^ rest.length + Nat.ofDigits base ds.reverse =
          n * base ^ (b :: rest).length + Nat.ofDigits base (d :: ds).reverse := by
      intro d ds hlength
      rw [Nat.ofDigits_reverse_cons, hlength, List.length_cons, Nat.pow_succ, Nat.add_mul, Nat.mul_assoc,
        Nat.mul_comm base, Nat.mul_comm d, Nat.add_assoc, Nat.add_comm (base ^ rest.length * d)]
    constructor
    · intro h
      cases hdigit : digitOf? base b with
      | none =>
        rw [readFrom?, hdigit] at h
        contradiction
      | some d =>
        rw [readFrom?, hdigit] at h
        obtain ⟨ds, hds, rfl⟩ := ih.1 h
        exact ⟨d :: ds, .cons ((digitOf?_eq_some_iff hbase).1 hdigit) hds, hplaces d ds hds.length_eq.symm⟩
    · rintro ⟨_, hall, rfl⟩
      obtain ⟨d, ds, hd, hds, rfl⟩ := List.forall₂_cons_left_iff.1 hall
      rw [readFrom?, (digitOf?_eq_some_iff hbase).2 hd]
      exact ih.2 ⟨ds, hds, (hplaces d ds hds.length_eq.symm).symm⟩

theorem readFrom?_zero_eq_some_iff {base : Nat} (hbase : base ≤ 36) {t : Text} {n : Nat} :
    readFrom? base 0 t = some n ↔ Positional base t n := by
  simp only [readFrom?_eq_some_iff hbase, Nat.zero_mul, Nat.zero_add, Positional]

theorem read?_eq_some_iff {base : Nat} (hbase : base ≤ 36) {t : Text} {n : Nat} :
    read? base t = some n ↔ t ≠ [] ∧ Positional base t n := by
  cases t with
  | nil => simp [read?]
  | cons b rest =>
    rw [← readFrom?_zero_eq_some_iff hbase]
    simp [read?]

theorem Positional.exists_of_mem {base : Nat} {t : Text} {n : Nat} (h : Positional base t n) {b : UInt8}
    (hb : b ∈ t) : ∃ d, IsDigitOf base b d := by
  obtain ⟨ds, hds, -⟩ := h
  exact exists_forall₂_iff.1 ⟨ds, hds⟩ b hb

theorem Positional.notMem {base : Nat} {t : Text} {n : Nat} (h : Positional base t n) (hbase : base ≤ 36)
    {b : UInt8} (hb : digitOf? base b = none) : b ∉ t := by
  intro hmem
  obtain ⟨d, hd⟩ := h.exists_of_mem hmem
  rw [(digitOf?_eq_some_iff hbase).2 hd] at hb
  contradiction

theorem bind_ofNat_eq_some_iff {found : Option Nat} {word : UInt16} :
    (found.bind fun n => if n < 65536 then some (UInt16.ofNat n) else none) = some word ↔
      found = some word.toNat := by
  cases found with
  | none => simp
  | some n =>
    rw [Option.bind_some, Option.some.injEq]
    constructor
    · intro h
      split at h
      · rename_i hn
        rw [← Option.some.inj h, UInt16.toNat_ofNat_of_lt' hn]
      · contradiction
    · rintro rfl
      rw [if_pos word.toNat_lt, UInt16.ofNat_toNat]

end Text

namespace Numeral

def zero : UInt8 := '0'.toUInt8

/-- The forms of a numeral, with the base and the digits: a mark in either case with something behind it, a zero
with anything behind it, and a text that starts with a digit other than zero. -/
inductive Form : Text → Nat → Text → Prop
  | hexadecimal {mark : UInt8} {t : Text} (hmark : mark = 'x'.toUInt8 ∨ mark = 'X'.toUInt8) (hne : t ≠ []) :
    Form (zero :: mark :: t) 16 t
  | octal {mark : UInt8} {t : Text} (hmark : mark = 'o'.toUInt8 ∨ mark = 'O'.toUInt8) (hne : t ≠ []) :
    Form (zero :: mark :: t) 8 t
  | binary {mark : UInt8} {t : Text} (hmark : mark = 'b'.toUInt8 ∨ mark = 'B'.toUInt8) (hne : t ≠ []) :
    Form (zero :: mark :: t) 2 t
  | leadingZero (t : Text) : Form (zero :: t) 8 t
  | decimal {first : UInt8} (t : Text) (hlow : '1'.toUInt8 ≤ first) (hhigh : first ≤ '9'.toUInt8) :
    Form (first :: t) 10 (first :: t)

def Denotes (w : Text) (n : Nat) : Prop := ∃ base t, Form w base t ∧ Text.Positional base t n

theorem splitBase_of_ne_zero {b : UInt8} (h : b ≠ zero) (rest : Text) :
    splitBase (b :: rest) = (10, b :: rest) := if_neg h

theorem splitBase_marked {mark : UInt8} {base : Nat} (hmark : markedBase? mark = some base) {t : Text}
    (hne : t ≠ []) : splitBase (zero :: mark :: t) = (base, t) := by
  obtain ⟨d, ds, rfl⟩ := List.exists_cons_of_ne_nil hne
  have hzero : zero = '0'.toUInt8 := rfl
  simp only [splitBase, if_pos hzero, hmark]

/-- A mark with something behind it is no octal digit, so a zero that octal digits follow is never taken for
the start of a mark. -/
theorem splitBase_leadingZero {t : Text} {n : Nat} (h : Text.Positional 8 t n) :
    splitBase (zero :: t) = (8, t) := by
  have hzero : zero = '0'.toUInt8 := rfl
  have hmark : ∀ b : UInt8, (Text.digitOf? 8 b).isSome = true → markedBase? b = none :=
    Text.forall_byte (by decide +kernel)
  match t with
  | [] | [_] => simp only [splitBase, if_pos hzero]
  | mark :: d :: ds =>
    obtain ⟨value, hvalue⟩ := h.exists_of_mem List.mem_cons_self
    have hsome := (Text.digitOf?_eq_some_iff (show 8 ≤ 36 by decide)).2 hvalue
    have hnone : markedBase? mark = none := hmark mark (by rw [hsome]; rfl)
    simp only [splitBase, if_pos hzero, hnone]

theorem splitBase_of_form {w t : Text} {base n : Nat} (hform : Form w base t)
    (hdigits : Text.Positional base t n) : splitBase w = (base, t) := by
  cases hform with
  | hexadecimal hmark hne => exact splitBase_marked (by rcases hmark with rfl | rfl <;> rfl) hne
  | octal hmark hne => exact splitBase_marked (by rcases hmark with rfl | rfl <;> rfl) hne
  | binary hmark hne => exact splitBase_marked (by rcases hmark with rfl | rfl <;> rfl) hne
  | leadingZero => exact splitBase_leadingZero hdigits
  | decimal _ hlow hhigh =>
    apply splitBase_of_ne_zero
    rintro rfl
    exact absurd hlow (by decide)

theorem form_of_mark {mark : UInt8} {base : Nat} (hmark : markedBase? mark = some base) {t : Text}
    (hne : t ≠ []) : Form (zero :: mark :: t) base t := by
  unfold markedBase? at hmark
  split at hmark
  · obtain rfl := Option.some.inj hmark
    exact .hexadecimal (by assumption) hne
  split at hmark
  · obtain rfl := Option.some.inj hmark
    exact .octal (by assumption) hne
  split at hmark
  · obtain rfl := Option.some.inj hmark
    exact .binary (by assumption) hne
  · contradiction

theorem form_splitBase_zero (t : Text) :
    Form (zero :: t) (splitBase (zero :: t)).1 (splitBase (zero :: t)).2 := by
  have hzero : zero = '0'.toUInt8 := rfl
  match t with
  | [] | [_] =>
    simp only [splitBase, if_pos hzero]
    exact .leadingZero _
  | mark :: d :: ds =>
    cases hmark : markedBase? mark with
    | none =>
      simp only [splitBase, if_pos hzero, hmark]
      exact .leadingZero _
    | some base =>
      rw [splitBase_marked hmark (List.cons_ne_nil d ds)]
      exact form_of_mark hmark (List.cons_ne_nil d ds)

theorem base_le_of_form {w t : Text} {base : Nat} (h : Form w base t) : base ≤ 36 := by
  cases h <;> decide

/-- The reader gives the value of a numeral, and of nothing else. -/
theorem value?_eq_some_iff {w : Text} {n : Nat} : value? w = some n ↔ Denotes w n := by
  constructor
  · intro h
    cases w with
    | nil => contradiction
    | cons b rest =>
      have hread : Text.readFrom? (splitBase (b :: rest)).1 0 (splitBase (b :: rest)).2 = some n := h
      by_cases hb : b = zero
      · subst hb
        have hform := form_splitBase_zero rest
        exact ⟨_, _, hform, (Text.readFrom?_zero_eq_some_iff (base_le_of_form hform)).1 hread⟩
      -- Without a zero in front the text is decimal, and its first digit is one from 1 to 9.
      · rw [splitBase_of_ne_zero hb] at hread
        have hdigits := (Text.readFrom?_zero_eq_some_iff (show 10 ≤ 36 by decide)).1 hread
        obtain ⟨d, hd⟩ := hdigits.exists_of_mem List.mem_cons_self
        have hsome := (Text.digitOf?_eq_some_iff (show 10 ≤ 36 by decide)).2 hd
        have hrange : ∀ b : UInt8, (Text.digitOf? 10 b).isSome = true →
            b = zero ∨ ('1'.toUInt8 ≤ b ∧ b ≤ '9'.toUInt8) := Text.forall_byte (by decide +kernel)
        rcases hrange b (by rw [hsome]; rfl) with hzero | ⟨hlow, hhigh⟩
        · exact absurd hzero hb
        · exact ⟨10, b :: rest, .decimal rest hlow hhigh, hdigits⟩
  · rintro ⟨base, t, hform, hdigits⟩
    have hread := (Text.readFrom?_zero_eq_some_iff (base_le_of_form hform)).2 hdigits
    have hsplit := splitBase_of_form hform hdigits
    cases w with
    | nil => cases hform
    | cons b rest =>
      change Text.readFrom? _ 0 _ = some n
      rw [hsplit]
      exact hread

theorem word?_eq_some_iff {w : Text} {word : UInt16} : word? w = some word ↔ Denotes w word.toNat := by
  have hbind : word? w = (value? w).bind fun n => if n < 65536 then some (UInt16.ofNat n) else none := by
    rw [word?]
    cases value? w <;> rfl
  rw [hbind, Text.bind_ofNat_eq_some_iff, value?_eq_some_iff]

theorem Denotes.isDigit_head {w : Text} {n : Nat} (h : Denotes w n) : w.head?.any Text.isDigit = true := by
  obtain ⟨base, t, hform, -⟩ := h
  have hdecimal : ∀ b : UInt8, '1'.toUInt8 ≤ b ∧ b ≤ '9'.toUInt8 → Text.isDigit b = true :=
    Text.forall_byte (by decide +kernel)
  cases hform with
  | hexadecimal | octal | binary | leadingZero => exact (by decide : Text.isDigit zero = true)
  | decimal _ hlow hhigh => exact hdecimal _ ⟨hlow, hhigh⟩

end Numeral

namespace Assembly

theorem numberWord_of_word? (evaluate : Evaluator) {token : Text}
    (h : ¬ Token.expressionStart <+: token) {word : UInt16} (hword : Numeral.word? token = some word) :
    numberWord evaluate token = .ok word := by
  have hstart : ¬ Token.expressionStart.isPrefixOf token = true := mt List.isPrefixOf_iff_prefix.1 h
  have hhead := (Numeral.word?_eq_some_iff.1 hword).isDigit_head
  cases token with
  | nil => contradiction
  | cons b rest =>
    have hb : Text.isDigit b = true := hhead
    simp only [numberWord, if_neg hstart, if_pos hb, hword]

theorem numberWord_of_word?_eq_none (evaluate : Evaluator) {token : Text}
    (h : ¬ Token.expressionStart <+: token) (hword : Numeral.word? token = none) :
    numberWord evaluate token =
      .error (if token.head?.any Text.isDigit then .notNumber token else .notValue token) := by
  have hstart : ¬ Token.expressionStart.isPrefixOf token = true := mt List.isPrefixOf_iff_prefix.1 h
  cases token with
  | nil => rfl
  | cons b rest =>
    rw [List.head?_cons, Option.any_some, numberWord, if_neg hstart]
    by_cases hb : Text.isDigit b = true
    · simp only [if_pos hb, hword]
    · simp only [if_neg hb]

theorem numberWord_eq_ok_iff (evaluate : Evaluator) {token : Text}
    (h : ¬ Token.expressionStart <+: token) {word : UInt16} :
    numberWord evaluate token = .ok word ↔ Numeral.Denotes token word.toNat := by
  rw [← Numeral.word?_eq_some_iff]
  cases hword : Numeral.word? token with
  | some found => rw [numberWord_of_word? evaluate h hword, Except.ok.injEq, Option.some.injEq]
  | none =>
    rw [numberWord_of_word?_eq_none evaluate h hword]
    constructor <;> exact nofun

/-- A token that starts no expression is a number exactly if it is a numeral whose value fits a word, and it then
stands for that value. Any other is called a bad number if it starts with a digit, and no value if it does not. -/
theorem numberWord_exact (evaluate : Evaluator) {token : Text}
    (h : ¬ Token.expressionStart <+: token) :
    (∀ word, numberWord evaluate token = .ok word ↔ Numeral.Denotes token word.toNat) ∧
    ((¬ ∃ n ≤ 0xffff, Numeral.Denotes token n) → numberWord evaluate token =
      .error (if token.head?.any Text.isDigit then .notNumber token else .notValue token)) := by
  refine ⟨fun word => numberWord_eq_ok_iff evaluate h, fun hnone => ?_⟩
  apply numberWord_of_word?_eq_none evaluate h
  rw [Option.eq_none_iff_forall_ne_some]
  intro word hword
  exact hnone ⟨word.toNat, Nat.le_of_lt_succ word.toNat_lt, Numeral.word?_eq_some_iff.1 hword⟩

/-- Leading zeros do not count, a value of more than 16 bits does not fit however far it is over, and an
underscore, which other numerals may have, makes a bad number. -/
theorem numberWord_exact_long :
    numberWord Constant.closed (ascii "0X00000000000000000000FfFf") = .ok 0xffff ∧
    numberWord Constant.closed (ascii "0017") = .ok 15 ∧
    numberWord Constant.closed (ascii "18446744073709551617") =
      .error (.notNumber (ascii "18446744073709551617")) ∧
    numberWord Constant.closed (ascii "1_0") = .error (.notNumber (ascii "1_0")) ∧
    numberWord Constant.closed (ascii "_10") = .error (.notValue (ascii "_10")) := by
  have hnone : ∀ {token : Text}, Numeral.word? token = none → ¬ ∃ n ≤ 0xffff, Numeral.Denotes token n := by
    rintro token hword ⟨n, hn, hdenotes⟩
    rw [← UInt16.toNat_ofNat_of_lt' (Nat.lt_succ_of_le hn), ← Numeral.word?_eq_some_iff, hword] at hdenotes
    contradiction
  refine ⟨((numberWord_exact Constant.closed (by decide)).1 _).2 (Numeral.word?_eq_some_iff.1 (by decide +kernel)),
    ((numberWord_exact Constant.closed (by decide)).1 _).2 (Numeral.word?_eq_some_iff.1 (by decide +kernel)),
    (numberWord_exact Constant.closed (by decide)).2 (hnone (by decide +kernel)),
    (numberWord_exact Constant.closed (by decide)).2 (hnone (by decide +kernel)),
    (numberWord_exact Constant.closed (by decide)).2 (hnone (by decide +kernel))⟩

end Assembly
end Asm16
