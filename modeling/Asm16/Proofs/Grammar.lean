import Asm16.Assembly.Statement
import Asm16.Proofs.Name
import Mathlib.Data.List.Forall2
import Mathlib.Tactic.IntervalCases

/-! The grammar of statements. A statement is spelt by tokens: the rules below say which tokens spell
which values, operands and statements, and nothing about how they are found. Parsing agrees with
them: it succeeds exactly on what is spelt, and gives what the spelling denotes. -/

namespace Asm16.Grammar

open Assembly

/-- A value as it is written: a number or the name of a label. -/
inductive Atom where
  | number (word : UInt16)
  | label (name : Text)
  deriving DecidableEq, Repr

inductive Term where
  | register (reg : Register)
  | special (sp : Special)
  | bare (value : Atom)
  | indirect (reg : Register)
  | memory (address : Atom)
  | offset (reg : Register) (offset : Atom)
  deriving DecidableEq, Repr

inductive Phrase where
  | data (values : List Atom)
  | nonBasic (op : NonBasicOp) (a : Term)
  | basic (op : BasicOp) (a b : Term)
  deriving DecidableEq, Repr

/-! ### Spelling -/

inductive Atom.Spelt (evaluate : Evaluator) : Text → Atom → Prop
  | number {token : Text} {word : UInt16} (h : numberWord evaluate token = .ok word) :
    Spelt evaluate token (.number word)
  | label {token : Text} (hlabel : isLabel token = true) (hfree : isReserved token = false) :
    Spelt evaluate token (.label token)

/-- Outside brackets a number may be negated. -/
inductive Atom.SpeltFreely (evaluate : Evaluator) : List Text → Atom → Prop
  | atom {token : Text} {a : Atom} (h : a.Spelt evaluate token) : SpeltFreely evaluate [token] a
  | negative {token : Text} {word : UInt16} (h : numberWord evaluate token = .ok word) :
    SpeltFreely evaluate [minusToken, token] (.number (-word))

inductive Term.Spelt (evaluate : Evaluator) : List Text → Term → Prop
  | register {token : Text} {reg : Register} (h : Register.ofName? token = some reg) :
    Spelt evaluate [token] (.register reg)
  | special {token : Text} {sp : Special} (h : Special.ofName? token = some sp) :
    Spelt evaluate [token] (.special sp)
  | bare {tokens : List Text} {a : Atom} (h : a.SpeltFreely evaluate tokens) :
    Spelt evaluate tokens (.bare a)
  | indirect {token : Text} {reg : Register} (h : Register.ofName? token = some reg) :
    Spelt evaluate [openToken, token, closeToken] (.indirect reg)
  | memory {token : Text} {a : Atom} (h : a.Spelt evaluate token) :
    Spelt evaluate [openToken, token, closeToken] (.memory a)
  | offsetFirst {token name : Text} {a : Atom} {reg : Register} (ha : a.Spelt evaluate token)
    (hreg : Register.ofName? name = some reg) :
    Spelt evaluate [openToken, token, plusToken, name, closeToken] (.offset reg a)
  | registerFirst {token name : Text} {a : Atom} {reg : Register} (ha : a.Spelt evaluate token)
    (hreg : Register.ofName? name = some reg) :
    Spelt evaluate [openToken, name, plusToken, token, closeToken] (.offset reg a)

inductive Phrase.Spelt (evaluate : Evaluator) : List Text → Phrase → Prop
  | data {mnemonic : Text} {arguments : List (List Text)} {values : List Atom}
    (hm : Text.upper mnemonic = ascii "DAT") (hne : arguments ≠ [])
    (h : List.Forall₂ (Atom.SpeltFreely evaluate) arguments values) :
    Spelt evaluate (mnemonic :: [commaToken].intercalate arguments) (.data values)
  | nonBasic {mnemonic : Text} {argument : List Text} {op : NonBasicOp} {a : Term}
    (hm : NonBasicOp.ofName? mnemonic = some op) (h : a.Spelt evaluate argument) :
    Spelt evaluate (mnemonic :: argument) (.nonBasic op a)
  | basic {mnemonic : Text} {left right : List Text} {op : BasicOp} {a b : Term}
    (hm : BasicOp.ofName? mnemonic = some op) (ha : a.Spelt evaluate left)
    (hb : b.Spelt evaluate right) :
    Spelt evaluate (mnemonic :: (left ++ commaToken :: right)) (.basic op a b)

/-! ### Denotation -/

def Atom.value : Atom → Value
  | number word => ⟨word, none⟩
  | label name => ⟨0, some name⟩

def Term.operand (symbols : Symbols) : Term → Operand
  | register reg => .register reg
  | special sp => .special sp
  | bare a => Assembly.bare symbols a.value
  | indirect reg => .registerIndirect reg
  | memory a => .memory (located symbols a.value)
  | offset reg a => .registerOffset reg (located symbols a.value)

def Phrase.body (symbols : Symbols) : Phrase → Body
  | data values => .data (values.map Atom.value)
  | nonBasic op a => .instruction (.nonBasic op (a.operand symbols))
  | basic op a b => .instruction (.basic op (a.operand symbols) (b.operand symbols))

/-! ### Values -/

section
variable {evaluate : Evaluator}

theorem head_of_numberWord {token : Text} {word : UInt16} (h : numberWord evaluate token = .ok word) :
    ∃ b rest, token = b :: rest ∧ (Text.isDigit b = true ∨ b = Token.dollar) := by
  unfold numberWord at h
  split at h
  · rename_i hstart
    obtain ⟨rest, rfl⟩ := List.isPrefixOf_iff_prefix.1 hstart
    exact ⟨Token.dollar, _, rfl, .inr rfl⟩
  · split at h
    · contradiction
    · rename_i b rest _
      split at h
      · rename_i hdigit
        exact ⟨b, rest, rfl, .inl hdigit⟩
      · contradiction

theorem isDigit_iff {b : UInt8} : Text.isDigit b = true ↔ 48 ≤ b.toNat ∧ b.toNat ≤ 57 := by
  simp [Text.isDigit, UInt8.le_iff_toNat_le]

theorem isReserved_of_numberWord {token : Text} {word : UInt16}
    (h : numberWord evaluate token = .ok word) : isReserved token = false := by
  obtain ⟨b, rest, rfl, hb⟩ := head_of_numberWord h
  apply not_isReserved_of_head
  rcases hb with hb | rfl
  · have := (isDigit_iff.1 hb).2
    exact UInt8.lt_iff_toNat_lt.2 (Nat.lt_of_le_of_lt this (by decide))
  · decide

theorem isLabel_of_numberWord {token : Text} {word : UInt16}
    (h : numberWord evaluate token = .ok word) : isLabel token = false := by
  obtain ⟨b, rest, rfl, hb⟩ := head_of_numberWord h
  have hstart : isLabelStart b = false := by
    rcases hb with hb | rfl
    · have hb := isDigit_iff.1 hb
      rw [← UInt8.ofNat_toNat (x := b)]
      obtain ⟨hlow, hhigh⟩ := hb
      interval_cases b.toNat <;> decide
    · decide
  rw [isLabel, hstart, Bool.false_and]

theorem atom_eq_ok_iff {token : Text} {v : Value} :
    atom evaluate token = .ok v ↔ ∃ a : Atom, a.Spelt evaluate token ∧ v = a.value := by
  unfold atom
  constructor
  · intro h
    split at h
    · contradiction
    · rename_i hfree
      split at h
      · rename_i hlabel
        exact ⟨.label token, .label hlabel (Bool.eq_false_iff.2 hfree), (Except.ok.inj h).symm⟩
      · split at h
        · rename_i word hword
          exact ⟨.number word, .number hword, (Except.ok.inj h).symm⟩
        · contradiction
  · rintro ⟨a, hspelt, rfl⟩
    cases hspelt with
    | number hword =>
      rw [if_neg (by simp [isReserved_of_numberWord hword]),
        if_neg (by simp [isLabel_of_numberWord hword]), hword]
      rfl
    | label hlabel hfree =>
      rw [if_neg (by simp [hfree]), if_pos hlabel]
      rfl

theorem value_eq_ok_iff {tokens : List Text} {v : Value} :
    value evaluate tokens = .ok v ↔ ∃ a : Atom, a.SpeltFreely evaluate tokens ∧ v = a.value := by
  unfold value
  constructor
  · intro h
    split at h
    · obtain ⟨a, hspelt, rfl⟩ := atom_eq_ok_iff.1 h
      exact ⟨a, .atom hspelt, rfl⟩
    · split at h
      · rename_i hminus
        subst hminus
        split at h
        · rename_i word hword
          exact ⟨_, .negative hword, (Except.ok.inj h).symm⟩
        · contradiction
      · contradiction
    · contradiction
  · rintro ⟨a, hspelt, rfl⟩
    cases hspelt with
    | atom hspelt => exact atom_eq_ok_iff.2 ⟨a, hspelt, rfl⟩
    | negative hword =>
      simp only [if_pos, hword]
      rfl

/-! ### Operands -/

theorem Atom.Spelt.isReserved {token : Text} {a : Atom} (h : a.Spelt evaluate token) :
    isReserved token = false := by
  cases h with
  | number hword => exact isReserved_of_numberWord hword
  | label hlabel hfree => exact hfree

theorem Atom.Spelt.register_eq_none {token : Text} {a : Atom} (h : a.Spelt evaluate token) :
    Register.ofName? token = none := by
  have hfree := h.isReserved
  rw [Asm16.isReserved, Bool.or_eq_false_iff] at hfree
  exact Option.isSome_eq_false_iff.1 hfree.1 |> Option.isNone_iff_eq_none.1

theorem Atom.Spelt.isSeparator {b : UInt8} {a : Atom} (h : a.Spelt evaluate [b]) :
    Token.isSeparator b = false := by
  have hseparators : Token.separators.all
      (fun c => !Text.isDigit c && c != Token.dollar && !isLabelStart c) = true := by decide
  rw [Token.isSeparator, List.contains_eq_mem, decide_eq_false_iff_not]
  intro hmem
  obtain ⟨⟨hdigit, hdollar⟩, hstart⟩ :
      (Text.isDigit b = false ∧ b ≠ Token.dollar) ∧ isLabelStart b = false := by
    simpa using List.all_eq_true.1 hseparators b hmem
  cases h with
  | number hword =>
    obtain ⟨c, rest, hc, hhead⟩ := head_of_numberWord hword
    obtain ⟨rfl, _⟩ := List.cons.inj hc
    rcases hhead with hhead | rfl
    · simp [hdigit] at hhead
    · exact hdollar rfl
  | label hlabel _ => simp [isLabel, hstart] at hlabel

theorem exists_spelt_of_bracketed {symbols : Symbols} {whole : Text} {inner : List Text} {op : Operand}
    (h : bracketed evaluate symbols whole inner = .ok op) :
    ∃ t : Term, t.Spelt evaluate (openToken :: (inner ++ [closeToken])) ∧ op = t.operand symbols := by
  unfold bracketed at h
  split at h
  · rename_i token
    split at h
    · rename_i reg hreg
      exact ⟨_, .indirect hreg, (Except.ok.inj h).symm⟩
    · split at h
      · contradiction
      · split at h
        · rename_i address haddress
          obtain ⟨a, hspelt, rfl⟩ := atom_eq_ok_iff.1 haddress
          exact ⟨_, .memory hspelt, (Except.ok.inj h).symm⟩
        · contradiction
  · rename_i left plus right
    simp only at h
    split at h
    · rename_i token reg hsplit
      split at hsplit
      · rename_i hplus
        subst hplus
        split at h
        · contradiction
        · split at h
          · rename_i offset hoffset
            obtain ⟨a, hspelt, rfl⟩ := atom_eq_ok_iff.1 hoffset
            obtain rfl := Except.ok.inj h
            -- A register behind the plus is looked for before one in front of it.
            split at hsplit
            · rename_i reg' hright
              obtain ⟨rfl, rfl⟩ : left = token ∧ reg' = reg := by simpa using hsplit
              exact ⟨_, .offsetFirst hspelt hright, rfl⟩
            · obtain ⟨reg', hleft, heq⟩ := Option.map_eq_some_iff.1 hsplit
              obtain ⟨rfl, rfl⟩ : right = token ∧ reg' = reg := by simpa using heq
              exact ⟨_, .registerFirst hspelt hleft, rfl⟩
          · contradiction
      · contradiction
    · contradiction
  · contradiction

theorem exists_spelt_of_operand {symbols : Symbols} {tokens : List Text} {op : Operand}
    (h : operand evaluate symbols tokens = .ok op) :
    ∃ t : Term, t.Spelt evaluate tokens ∧ op = t.operand symbols := by
  unfold operand at h
  split at h
  · contradiction
  · rename_i first rest
    split at h
    · rename_i hopen
      subst hopen
      split at h
      · rename_i hclose
        obtain ⟨t, hspelt, rfl⟩ := exists_spelt_of_bracketed h
        obtain ⟨init, rfl⟩ := List.getLast?_eq_some_iff.1 hclose.2
        rw [List.dropLast_concat] at hspelt
        exact ⟨t, hspelt, rfl⟩
      · contradiction
    · split at h
      · rename_i op' hnamed
        obtain rfl := Except.ok.inj h
        split at hnamed
        · rename_i hempty
          obtain rfl := List.isEmpty_iff.1 hempty
          unfold named? at hnamed
          split at hnamed
          · rename_i reg hreg
            exact ⟨_, .register hreg, (Option.some.inj hnamed).symm⟩
          · obtain ⟨sp, hsp, rfl⟩ := Option.map_eq_some_iff.1 hnamed
            exact ⟨_, .special hsp, rfl⟩
        · contradiction
      · split at h
        · rename_i v hv
          obtain ⟨a, hspelt, rfl⟩ := value_eq_ok_iff.1 hv
          exact ⟨_, .bare hspelt, (Except.ok.inj h).symm⟩
        · contradiction

theorem operand_bracketed (evaluate : Evaluator) (symbols : Symbols) {inner : List Text}
    (hne : inner ≠ []) :
    operand evaluate symbols (openToken :: (inner ++ [closeToken])) =
      bracketed evaluate symbols (openToken :: (inner ++ [closeToken])).flatten inner := by
  have hlen : 2 ≤ (inner ++ [closeToken]).length := by
    have hpos := List.length_pos_iff.2 hne
    rw [List.length_append, List.length_singleton]
    omega
  rw [operand, if_pos rfl, if_pos ⟨hlen, List.getLast?_concat ..⟩, List.dropLast_concat]

theorem operand_unbracketed (symbols : Symbols) {first : Text} (rest : List Text)
    (hopen : first ≠ openToken) :
    operand evaluate symbols (first :: rest) =
      match (if rest.isEmpty then named? first else none) with
      | some op => .ok op
      | none =>
        match value evaluate (first :: rest) with
        | .ok v => .ok (bare symbols v)
        | .error e => .error e := by
  rw [operand]
  exact if_neg hopen

theorem operand_of_spelt {tokens : List Text} {t : Term} (h : t.Spelt evaluate tokens)
    (symbols : Symbols) : operand evaluate symbols tokens = .ok (t.operand symbols) := by
  -- A bracket is neither a name nor a value, so it can only open a bracketed operand.
  have hreserved : isReserved openToken = false := by decide
  have hseparator : ∀ {token : Text} {a : Atom}, a.Spelt evaluate token → token ≠ openToken := by
    rintro token a ha rfl
    exact absurd (Atom.Spelt.isSeparator ha) (by decide)
  cases h with
  | register hreg =>
    rename_i token reg
    have hopen : token ≠ openToken := by
      rintro rfl
      simp [isReserved_of_register hreg] at hreserved
    rw [operand_unbracketed _ _ hopen]
    simp [named?, hreg, Term.operand]
  | special hsp =>
    rename_i token sp
    have hopen : token ≠ openToken := by
      rintro rfl
      simp [isReserved_of_special hsp] at hreserved
    rw [operand_unbracketed _ _ hopen]
    simp [named?, hsp, Special.register_ofName?_eq_none hsp, Term.operand]
  | bare hvalue =>
    rename_i a
    have hok := value_eq_ok_iff.2 ⟨a, hvalue, rfl⟩
    cases hvalue with
    | atom ha =>
      rename_i token
      have hspecial : Special.ofName? token = none := by
        have hfree := ha.isReserved
        rw [isReserved, Bool.or_eq_false_iff] at hfree
        simpa using hfree.2
      rw [operand_unbracketed _ _ (hseparator ha), hok]
      simp [named?, ha.register_eq_none, hspecial, Term.operand]
    | negative hword =>
      rw [operand_unbracketed _ _ (by decide), hok]
      rfl
  | indirect hreg =>
    rename_i token reg
    refine (operand_bracketed evaluate symbols (List.cons_ne_nil token [])).trans ?_
    simp [bracketed, hreg, Term.operand]
  | memory ha =>
    rename_i token a
    refine (operand_bracketed evaluate symbols (List.cons_ne_nil token [])).trans ?_
    simp [bracketed, ha.register_eq_none, ha.isReserved, atom_eq_ok_iff.2 ⟨a, ha, rfl⟩, Term.operand]
  | offsetFirst ha hreg =>
    rename_i token name a reg
    refine (operand_bracketed evaluate symbols (List.cons_ne_nil token [plusToken, name])).trans ?_
    simp [bracketed, hreg, ha.isReserved, atom_eq_ok_iff.2 ⟨a, ha, rfl⟩, Term.operand]
  | registerFirst ha hreg =>
    rename_i token name a reg
    refine (operand_bracketed evaluate symbols (List.cons_ne_nil name [plusToken, token])).trans ?_
    simp [bracketed, hreg, ha.register_eq_none, ha.isReserved, atom_eq_ok_iff.2 ⟨a, ha, rfl⟩,
      Term.operand]

theorem operand_eq_ok_iff {symbols : Symbols} {tokens : List Text} {op : Operand} :
    operand evaluate symbols tokens = .ok op ↔
      ∃ t : Term, t.Spelt evaluate tokens ∧ op = t.operand symbols := by
  refine ⟨exists_spelt_of_operand, ?_⟩
  rintro ⟨t, hspelt, rfl⟩
  exact operand_of_spelt hspelt symbols

/-! ### Statements -/

theorem Atom.Spelt.ne_comma {token : Text} {a : Atom} (h : a.Spelt evaluate token) :
    commaToken ≠ token := by
  rintro rfl
  exact absurd (Atom.Spelt.isSeparator h) (by decide)

theorem Atom.SpeltFreely.comma_notMem {tokens : List Text} {a : Atom}
    (h : a.SpeltFreely evaluate tokens) : commaToken ∉ tokens := by
  cases h with
  | atom ha => simpa using ha.ne_comma
  | negative hword =>
    have hminus : commaToken ≠ minusToken := by decide
    simpa [hminus] using (Atom.Spelt.number hword).ne_comma

theorem ne_comma_of_isReserved {token : Text} (h : isReserved token = true) : commaToken ≠ token := by
  rintro rfl
  exact absurd h (by decide)

theorem Term.Spelt.comma_notMem {tokens : List Text} {t : Term} (h : t.Spelt evaluate tokens) :
    commaToken ∉ tokens := by
  have hopen : commaToken ≠ openToken := by decide
  have hclose : commaToken ≠ closeToken := by decide
  have hplus : commaToken ≠ plusToken := by decide
  cases h with
  | register hreg => simpa using ne_comma_of_isReserved (isReserved_of_register hreg)
  | special hsp => simpa using ne_comma_of_isReserved (isReserved_of_special hsp)
  | bare ha => exact ha.comma_notMem
  | indirect hreg => simp [hopen, hclose, ne_comma_of_isReserved (isReserved_of_register hreg)]
  | memory ha => simp [hopen, hclose, ha.ne_comma]
  | offsetFirst ha hreg =>
    simp [hopen, hclose, hplus, ha.ne_comma, ne_comma_of_isReserved (isReserved_of_register hreg)]
  | registerFirst ha hreg =>
    simp [hopen, hclose, hplus, ha.ne_comma, ne_comma_of_isReserved (isReserved_of_register hreg)]

theorem dataFrom_eq_ok_iff {values : List Value} {arguments : List (List Text)} {body : Body} :
    dataFrom evaluate values arguments = .ok body ↔
      ∃ atoms : List Atom, List.Forall₂ (Atom.SpeltFreely evaluate) arguments atoms ∧
        body = .data (values.reverse ++ atoms.map Atom.value) := by
  induction arguments generalizing values with
  | nil =>
    simp only [dataFrom, List.forall₂_nil_left_iff, exists_eq_left, List.map_nil, List.append_nil]
    exact ⟨fun h => (Except.ok.inj h).symm, fun h => congrArg _ h.symm⟩
  | cons argument rest ih =>
    rw [dataFrom]
    constructor
    · intro h
      split at h
      · rename_i v hv
        obtain ⟨a, hspelt, rfl⟩ := value_eq_ok_iff.1 hv
        obtain ⟨atoms, hatoms, rfl⟩ := ih.1 h
        refine ⟨a :: atoms, .cons hspelt hatoms, ?_⟩
        rw [List.reverse_cons, List.append_assoc]
        rfl
      · contradiction
    · rintro ⟨atoms, hatoms, rfl⟩
      cases hatoms with
      | cons hspelt hrest =>
        rw [value_eq_ok_iff.2 ⟨_, hspelt, rfl⟩]
        refine ih.2 ⟨_, hrest, ?_⟩
        rw [List.reverse_cons, List.append_assoc]
        rfl

theorem nonBasic_eq_ok_iff {symbols : Symbols} {op : NonBasicOp} {arguments : List (List Text)}
    {body : Body} :
    nonBasic evaluate symbols op arguments = .ok body ↔
      ∃ (argument : List Text) (t : Term), arguments = [argument] ∧ t.Spelt evaluate argument ∧
        body = (Phrase.nonBasic op t).body symbols := by
  unfold nonBasic
  constructor
  · intro h
    split at h
    · rename_i argument
      split at h
      · rename_i a ha
        obtain ⟨t, hspelt, rfl⟩ := operand_eq_ok_iff.1 ha
        exact ⟨argument, t, rfl, hspelt, (Except.ok.inj h).symm⟩
      · contradiction
    · contradiction
  · rintro ⟨argument, t, rfl, hspelt, rfl⟩
    simp only [operand_of_spelt hspelt symbols, Phrase.body]

theorem basic_eq_ok_iff {symbols : Symbols} {op : BasicOp} {arguments : List (List Text)} {body : Body} :
    basic evaluate symbols op arguments = .ok body ↔
      ∃ (left right : List Text) (s t : Term), arguments = [left, right] ∧ s.Spelt evaluate left ∧
        t.Spelt evaluate right ∧ body = (Phrase.basic op s t).body symbols := by
  unfold basic
  constructor
  · intro h
    split at h
    · rename_i left right
      split at h
      · contradiction
      · rename_i a ha
        split at h
        · contradiction
        · rename_i b hb
          obtain ⟨s, hs, rfl⟩ := operand_eq_ok_iff.1 ha
          obtain ⟨t, ht, rfl⟩ := operand_eq_ok_iff.1 hb
          exact ⟨left, right, s, t, rfl, hs, ht, (Except.ok.inj h).symm⟩
    · contradiction
    · contradiction
  · rintro ⟨left, right, s, t, rfl, hs, ht, rfl⟩
    simp only [operand_of_spelt hs symbols, operand_of_spelt ht symbols, Phrase.body]

theorem exists_spelt_of_statement {symbols : Symbols} {mnemonic : Text} {rest : List Text} {body : Body}
    (h : statement evaluate symbols mnemonic rest = .ok body) :
    ∃ p : Phrase, p.Spelt evaluate (mnemonic :: rest) ∧ body = p.body symbols := by
  have hjoin : [commaToken].intercalate (rest.splitOn commaToken) = rest :=
    List.intercalate_splitOn commaToken
  unfold statement at h
  split at h
  · rename_i hdat
    split at h
    · contradiction
    · obtain ⟨atoms, hatoms, rfl⟩ := dataFrom_eq_ok_iff.1 h
      refine ⟨.data atoms, ?_, rfl⟩
      rw [← hjoin]
      exact .data hdat (List.splitOn_ne_nil _ _) hatoms
  · split at h
    · rename_i op hop
      obtain ⟨argument, t, hsplit, hspelt, rfl⟩ := nonBasic_eq_ok_iff.1 h
      rw [hsplit] at hjoin
      obtain rfl : argument = rest := by simpa using hjoin
      exact ⟨_, .nonBasic hop hspelt, rfl⟩
    · split at h
      · rename_i op hop
        split at h
        · contradiction
        · obtain ⟨left, right, s, t, hsplit, hs, ht, rfl⟩ := basic_eq_ok_iff.1 h
          rw [hsplit] at hjoin
          obtain rfl : left ++ commaToken :: right = rest := by simpa using hjoin
          exact ⟨_, .basic hop hs ht, rfl⟩
      · contradiction

theorem Atom.SpeltFreely.ne_nil {tokens : List Text} {a : Atom} (h : a.SpeltFreely evaluate tokens) :
    tokens ≠ [] := by
  cases h <;> simp

theorem statement_of_spelt {mnemonic : Text} {rest : List Text} {p : Phrase}
    (h : p.Spelt evaluate (mnemonic :: rest)) (symbols : Symbols) :
    statement evaluate symbols mnemonic rest = .ok (p.body symbols) := by
  unfold statement
  cases h with
  | data hdat hne hvalues =>
    rename_i arguments values
    have hcomma : ∀ argument ∈ arguments, commaToken ∉ argument := by
      intro argument hmem
      obtain ⟨i, hi, rfl⟩ := List.getElem_of_mem hmem
      exact (hvalues.get hi (hvalues.length_eq ▸ hi)).comma_notMem
    have hrest : ([commaToken].intercalate arguments).isEmpty = false := by
      cases hvalues with
      | nil => contradiction
      | cons hspelt _ =>
        obtain ⟨token, tokens, rfl⟩ := List.exists_cons_of_ne_nil hspelt.ne_nil
        rw [List.intercalate_cons_cons_left]
        rfl
    -- No argument holds a comma, so that splitting gives back what was joined.
    rw [if_pos hdat, hrest, List.splitOn_intercalate commaToken hcomma hne]
    exact dataFrom_eq_ok_iff.2 ⟨values, hvalues, rfl⟩
  | nonBasic hop hspelt =>
    rename_i op t
    obtain ⟨hjsr, rfl⟩ := NonBasicOp.ofName?_eq_some_iff.1 hop
    have hdat : ¬ Text.upper mnemonic = ascii "DAT" := by
      rw [hjsr]
      decide
    rw [if_neg hdat, hop, List.splitOn_eq_singleton hspelt.comma_notMem]
    exact nonBasic_eq_ok_iff.2 ⟨rest, t, rfl, hspelt, rfl⟩
  | basic hop hs ht =>
    rename_i left right op s t
    obtain ⟨hdat, hjsr⟩ := BasicOp.upper_ne_of_ofName? hop
    have hnone : NonBasicOp.ofName? mnemonic = none := if_neg hjsr
    have hsplit : (left ++ commaToken :: right).splitOn commaToken = [left, right] := by
      rw [List.splitOn_append_cons_self_of_not_mem hs.comma_notMem,
        List.splitOn_eq_singleton ht.comma_notMem]
    rw [if_neg hdat, hnone, hop, hsplit]
    have hrest : (left ++ commaToken :: right).isEmpty = false := by simp
    simp only [hrest]
    exact basic_eq_ok_iff.2 ⟨left, right, s, t, rfl, hs, ht, rfl⟩

theorem statement_eq_ok_iff {symbols : Symbols} {mnemonic : Text} {rest : List Text} {body : Body} :
    statement evaluate symbols mnemonic rest = .ok body ↔
      ∃ p : Phrase, p.Spelt evaluate (mnemonic :: rest) ∧ body = p.body symbols := by
  refine ⟨exists_spelt_of_statement, ?_⟩
  rintro ⟨p, hspelt, rfl⟩
  exact statement_of_spelt hspelt symbols

/-! ### One spelling, one meaning -/

theorem Atom.value_injective : Function.Injective Atom.value := by
  intro a b h
  cases a <;> cases b <;> simp_all [Atom.value]

/-- Without any declared label an operand still shows what was written outside brackets. -/
theorem bare_empty_value (a : Atom) : Assembly.bare ∅ a.value = .short a.value ∨
    Assembly.bare ∅ a.value = .nextWord a.value ∨ Assembly.bare ∅ a.value = .pending a.value := by
  cases a with
  | number word =>
    by_cases hshort : word ≤ Operand.shortMax <;>
      simp [Assembly.bare, Atom.value, Operand.literal, hshort]
  | label name => simp [Assembly.bare, Atom.value]

theorem located_empty_value (a : Atom) : located ∅ a.value = a.value := by
  cases a <;> simp [located, Atom.value]

theorem Term.operand_empty_injective : Function.Injective (Term.operand ∅) := by
  intro s t h
  cases s with
  | bare a =>
    rcases bare_empty_value a with ha | ha | ha <;> rw [Term.operand, ha] at h <;> cases t with
    | bare b =>
      rcases bare_empty_value b with hb | hb | hb <;> rw [Term.operand, hb] at h <;>
        simp_all [Atom.value_injective.eq_iff]
    | _ => contradiction
  | _ =>
    cases t with
    | bare b =>
      rcases bare_empty_value b with hb | hb | hb <;> simp only [Term.operand, hb] at h <;>
        contradiction
    | _ => simp_all [Term.operand, located_empty_value, Atom.value_injective.eq_iff]

theorem Phrase.body_empty_injective : Function.Injective (Phrase.body ∅) := by
  intro p q h
  cases p <;> cases q <;>
    simp_all [Phrase.body, Term.operand_empty_injective.eq_iff, Atom.value_injective.list_map.eq_iff]

/-- The same tokens never spell two statements. -/
theorem Phrase.Spelt.unique {tokens : List Text} {p q : Phrase} (hp : p.Spelt evaluate tokens)
    (hq : q.Spelt evaluate tokens) : p = q := by
  obtain ⟨mnemonic, rest, rfl⟩ : ∃ mnemonic rest, tokens = mnemonic :: rest := by
    cases hp <;> exact ⟨_, _, rfl⟩
  -- Parsing is a function, and without labels what it gives still tells the two apart.
  have h := (statement_of_spelt hp ∅).symm.trans (statement_of_spelt hq ∅)
  exact Phrase.body_empty_injective (Except.ok.inj h)

end
end Asm16.Grammar
