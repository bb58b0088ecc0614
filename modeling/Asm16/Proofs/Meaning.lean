import Asm16.Proofs.Binding
import Asm16.Proofs.Grammar

/-! What a statement means, said in one pass: the labels it refers to, and the words it stands for
once every label has an address. The assembler arrives at these words in two passes, fixing sizes
in the first and filling in addresses in the second; binding and encoding agree with the meaning. -/

namespace Asm16.Grammar

open Assembly

section
variable {evaluate : Evaluator}

/-! ### References -/

/-- Whether a token outside the mnemonic refers to a label. -/
def isReference (token : Text) : Bool := isLabel token && !isReserved token

def Atom.labels : Atom → List Text
  | number _ => []
  | label name => [name]

def Term.labels : Term → List Text
  | register _ => []
  | special _ => []
  | bare a => a.labels
  | indirect _ => []
  | memory a => a.labels
  | offset _ a => a.labels

def Phrase.labels : Phrase → List Text
  | data values => values.flatMap Atom.labels
  | nonBasic _ a => a.labels
  | basic _ a b => a.labels ++ b.labels

theorem isReference_of_numberWord {token : Text} {word : UInt16}
    (h : numberWord evaluate token = .ok word) : isReference token = false := by
  rw [isReference, isLabel_of_numberWord h, Bool.false_and]

theorem isReference_of_isReserved {token : Text} (h : isReserved token = true) :
    isReference token = false := by
  rw [isReference, h, Bool.not_true, Bool.and_false]

theorem Atom.Spelt.labels_eq {token : Text} {a : Atom} (h : a.Spelt evaluate token) :
    a.labels = [token].filter isReference := by
  cases h with
  | number hword => simp [Atom.labels, isReference_of_numberWord hword]
  | label hlabel hfree => simp [Atom.labels, isReference, hlabel, hfree]

theorem Atom.SpeltFreely.labels_eq {tokens : List Text} {a : Atom} (h : a.SpeltFreely evaluate tokens) :
    a.labels = tokens.filter isReference := by
  cases h with
  | atom ha => exact ha.labels_eq
  | negative hword =>
    have hminus : isReference minusToken = false := by decide
    simp [Atom.labels, hminus, isReference_of_numberWord hword]

theorem Term.Spelt.labels_eq {tokens : List Text} {t : Term} (h : t.Spelt evaluate tokens) :
    t.labels = tokens.filter isReference := by
  have hopen : isReference openToken = false := by decide
  have hclose : isReference closeToken = false := by decide
  have hplus : isReference plusToken = false := by decide
  cases h with
  | register hreg => simp [Term.labels, isReference_of_isReserved (isReserved_of_register hreg)]
  | special hsp => simp [Term.labels, isReference_of_isReserved (isReserved_of_special hsp)]
  | bare ha => exact ha.labels_eq
  | indirect hreg => simp [Term.labels, hopen, hclose, isReference_of_isReserved (isReserved_of_register hreg)]
  | memory ha =>
    simp [Term.labels, ha.labels_eq, List.filter_cons, hopen, hclose]
  | offsetFirst ha hreg =>
    simp [Term.labels, ha.labels_eq, List.filter_cons, hopen, hclose, hplus,
      isReference_of_isReserved (isReserved_of_register hreg)]
  | registerFirst ha hreg =>
    simp [Term.labels, ha.labels_eq, List.filter_cons, hopen, hclose, hplus,
      isReference_of_isReserved (isReserved_of_register hreg)]

theorem filter_isReference_intercalate (arguments : List (List Text)) :
    ([commaToken].intercalate arguments).filter isReference =
      arguments.flatMap (List.filter isReference) := by
  have hcomma : isReference commaToken = false := by decide
  induction arguments with
  | nil => rfl
  | cons argument rest ih =>
    cases rest with
    | nil => simp
    | cons next more =>
      rw [List.intercalate_cons_cons, List.filter_append, List.filter_append, ih]
      simp [hcomma]

theorem flatMap_labels_of_spelt {arguments : List (List Text)} {values : List Atom}
    (h : List.Forall₂ (Atom.SpeltFreely evaluate) arguments values) :
    values.flatMap Atom.labels = arguments.flatMap (List.filter isReference) := by
  induction h with
  | nil => rfl
  | cons hspelt _ ih => rw [List.flatMap_cons, List.flatMap_cons, hspelt.labels_eq, ih]

/-- The labels that a statement refers to are the tokens after the mnemonic that have the form of a
label and name neither a register nor a special operand, in their order. -/
theorem Phrase.Spelt.labels_eq {tokens : List Text} {p : Phrase} (h : p.Spelt evaluate tokens) :
    p.labels = tokens.tail.filter isReference := by
  have hcomma : isReference commaToken = false := by decide
  cases h with
  | data _ _ hvalues =>
    rw [List.tail_cons, filter_isReference_intercalate, Phrase.labels, flatMap_labels_of_spelt hvalues]
  | nonBasic _ ha => exact ha.labels_eq
  | basic _ ha hb =>
    simp [Phrase.labels, ha.labels_eq, hb.labels_eq, List.filter_append, hcomma]

end

/-! ### Words -/

def Atom.word? (symbols : Symbols) : Atom → Option UInt16
  | number word => some word
  | label name => symbols[name]?

/-- Whether a value outside brackets may be put into the operand field when it is small: a number
always, a label only if it is declared early enough. -/
def Atom.isCompact (early : Text → Bool) : Atom → Bool
  | number _ => true
  | label name => early name

def Term.code? (symbols : Symbols) (early : Text → Bool) : Term → Option (Nat × List UInt16)
  | register reg => some (reg.index.toNat, [])
  | special sp => some (sp.code.toNat, [])
  | indirect reg => some (0x08 + reg.index.toNat, [])
  | offset reg a => (a.word? symbols).map fun word => (0x10 + reg.index.toNat, [word])
  | memory a => (a.word? symbols).map fun word => (0x1e, [word])
  | bare a => (a.word? symbols).map fun word =>
    if a.isCompact early ∧ word ≤ 0x1f then (0x20 + word.toNat, []) else (0x1f, [word])

/-- The words of a statement: one for each data value, or an instruction word and the literals of
its operands. A label that is declared too late always takes a literal. -/
def Phrase.words? (symbols : Symbols) (early : Text → Bool) : Phrase → Option (List UInt16)
  | data values => values.mapM (Atom.word? symbols)
  | nonBasic op a => (a.code? symbols early).map fun (field, literals) =>
    UInt16.ofNat (field * 1024 + op.code.toNat * 16) :: literals
  | basic op a b =>
    match a.code? symbols early, b.code? symbols early with
    | some (fieldA, literalsA), some (fieldB, literalsB) =>
      some (UInt16.ofNat (fieldB * 1024 + fieldA * 16 + op.code.toNat) :: (literalsA ++ literalsB))
    | _, _ => none

/-! ### Binding -/

section
variable {symbols final : Symbols}

theorem Atom.bindValue_of_word? {a : Atom} {word : UInt16} (h : a.word? final = some word) :
    bindValue final a.value = .ok ⟨word, a.value.label⟩ := by
  cases a with
  | number w =>
    obtain rfl := Option.some.inj h
    rfl
  | label name =>
    rw [Atom.word?] at h
    simp [bindValue, Atom.value, h]

theorem Atom.bindValue_located (symbols : Symbols) {a : Atom} {word : UInt16} (h : a.word? final = some word) :
    bindValue final (located symbols a.value) = .ok ⟨word, a.value.label⟩ :=
  (Assembly.bindValue_located symbols final a.value).trans (bindValue_of_word? h)

theorem Atom.bindValue_of_missing {a : Atom} {name : Text} (hname : name ∈ a.labels)
    (h : final[name]? = none) : bindValue final a.value = .error (.labelMissing name) := by
  cases a with
  | number w => simp [Atom.labels] at hname
  | label name' =>
    obtain rfl : name = name' := by simpa [Atom.labels] using hname
    simp [bindValue, Atom.value, h]

def Term.Named : Term → Prop
  | register reg => reg.index < 8
  | special sp => sp.isNamed = true
  | indirect reg => reg.index < 8
  | offset reg _ => reg.index < 8
  | _ => True

theorem Term.Spelt.named {evaluate : Evaluator} {tokens : List Text} {t : Term}
    (h : t.Spelt evaluate tokens) : t.Named := by
  cases h with
  | register hreg => exact Register.index_lt_of_ofName? hreg
  | special hsp => exact Special.isNamed_of_ofName? hsp
  | indirect hreg => exact Register.index_lt_of_ofName? hreg
  | offsetFirst _ hreg => exact Register.index_lt_of_ofName? hreg
  | registerFirst _ hreg => exact Register.index_lt_of_ofName? hreg
  | bare _ => trivial
  | memory _ => trivial

theorem encode_literal (v : Value) :
    (Operand.literal v).encode = .ok (if v.word ≤ 0x1f then (UInt8.ofNat (0x20 + v.word.toNat), [])
      else (UInt8.ofNat 0x1f, [v.word])) := by
  unfold Operand.literal
  change (if v.word ≤ 0x1f then _ else _ : Operand).encode = _
  split
  · rename_i hshort
    have hfield : Operand.shortField + v.word.toUInt8 = UInt8.ofNat (0x20 + v.word.toNat) := by
      rw [UInt8.ofNat_add]
      rfl
    exact (if_pos hshort).trans (by rw [hfield])
  · rfl

theorem bindOperand_literal {v : Value} (h : bindValue final v = .ok v) :
    bindOperand final (.literal v) = .ok (.literal v) := by
  unfold Operand.literal
  split <;> simp [bindOperand, h, Except.map]

/-- The operand that a written value outside brackets becomes, once its label has an address. A
label that was already declared was sized by the same address, so its size still fits. -/
theorem bindOperand_bare (hext : Extends symbols final) {a : Atom} {word : UInt16}
    (h : a.word? final = some word) :
    bindOperand final (Assembly.bare symbols a.value) = .ok (if a.isCompact (symbols.contains ·) then
      .literal ⟨word, a.value.label⟩ else .nextWord ⟨word, a.value.label⟩) := by
  have hbind := Atom.bindValue_of_word? h
  cases a with
  | number w =>
    obtain rfl := Option.some.inj h
    exact bindOperand_literal hbind
  | label name =>
    have hcontains : symbols.contains name = symbols[name]?.isSome :=
      Std.TreeMap.contains_eq_isSome_getElem?
    -- A label that was known in the first pass has kept its address; one that was not is still
    -- pending and takes the next word however small its address is.
    cases hearly : symbols[name]? with
    | some address =>
      obtain rfl : word = address := Option.some.inj (h.symm.trans (hext name address hearly))
      have hbare : Assembly.bare symbols (Atom.label name).value = .literal ⟨word, some name⟩ := by
        simp [Assembly.bare, Atom.value, hearly]
      rw [hbare, if_pos (by simp [Atom.isCompact, hcontains, hearly])]
      exact bindOperand_literal hbind
    | none =>
      have hbare : Assembly.bare symbols (Atom.label name).value = .pending ⟨0, some name⟩ := by
        simp [Assembly.bare, Atom.value, hearly]
      rw [hbare, if_neg (by simp [Atom.isCompact, hcontains, hearly])]
      exact congrArg (Except.map Operand.nextWord) hbind

theorem Term.bind_bare (hext : Extends symbols final) {a : Atom} {word : UInt16}
    (h : a.word? final = some word) :
    ∃ op, bindOperand final (Assembly.bare symbols a.value) = .ok op ∧
      op.encode = .ok (if a.isCompact (symbols.contains ·) ∧ word ≤ 0x1f then
        (UInt8.ofNat (0x20 + word.toNat), []) else (UInt8.ofNat 0x1f, [word])) := by
  refine ⟨_, bindOperand_bare hext h, ?_⟩
  by_cases hcompact : a.isCompact (symbols.contains ·) = true
  · rw [if_pos hcompact, encode_literal]
    simp [hcompact]
  · rw [if_neg hcompact, if_neg fun hand => hcompact hand.1]
    rfl

theorem Term.bind_of_code? (hext : Extends symbols final) {t : Term} (hnamed : t.Named) {field : Nat}
    {literals : List UInt16} (h : t.code? final (symbols.contains ·) = some (field, literals)) :
    field ≤ 63 ∧ ∃ op, bindOperand final (t.operand symbols) = .ok op ∧
      op.encode = .ok (UInt8.ofNat field, literals) := by
  cases t with
  | register reg =>
    obtain ⟨rfl, rfl⟩ : reg.index.toNat = field ∧ [] = literals := by simpa [Term.code?] using h
    have hlt : reg.index.toNat < 8 := hnamed
    exact ⟨by omega, .register reg, rfl, by rw [Operand.encode, Register.and_seven hnamed]⟩
  | special sp =>
    obtain ⟨rfl, rfl⟩ : sp.code.toNat = field ∧ [] = literals := by simpa [Term.code?] using h
    have hle : sp.code.toNat ≤ 0x1d := by
      have hlast : sp.code ≤ Special.last := by
        simpa using (Bool.and_eq_true_iff.1 hnamed).2
      exact hlast
    have hsp : sp.isNamed = true := hnamed
    exact ⟨by omega, .special sp, rfl, by rw [Operand.encode, if_pos hsp, UInt8.ofNat_toNat]⟩
  | indirect reg =>
    obtain ⟨rfl, rfl⟩ : 0x08 + reg.index.toNat = field ∧ [] = literals := by simpa [Term.code?] using h
    have hlt : reg.index.toNat < 8 := hnamed
    refine ⟨by omega, .registerIndirect reg, rfl, ?_⟩
    rw [Operand.encode, Register.and_seven hnamed, UInt8.ofNat_add]
    rfl
  | offset reg a =>
    obtain ⟨word, hword, heq⟩ := Option.map_eq_some_iff.1 h
    obtain ⟨rfl, rfl⟩ : 0x10 + reg.index.toNat = field ∧ [word] = literals := by simpa using heq
    have hlt : reg.index.toNat < 8 := hnamed
    have hbind := congrArg (Except.map (Operand.registerOffset reg)) (Atom.bindValue_located symbols hword)
    refine ⟨by omega, .registerOffset reg ⟨word, a.value.label⟩, hbind, ?_⟩
    rw [Operand.encode, Register.and_seven hnamed, UInt8.ofNat_add]
    rfl
  | memory a =>
    obtain ⟨word, hword, heq⟩ := Option.map_eq_some_iff.1 h
    obtain ⟨rfl, rfl⟩ : 0x1e = field ∧ [word] = literals := by simpa using heq
    have hbind := congrArg (Except.map Operand.memory) (Atom.bindValue_located symbols hword)
    exact ⟨by omega, .memory ⟨word, a.value.label⟩, hbind, rfl⟩
  | bare a =>
    obtain ⟨word, hword, heq⟩ := Option.map_eq_some_iff.1 h
    obtain ⟨op, hbind, hencode⟩ := Term.bind_bare hext hword
    split_ifs at heq hencode with hcompact
    · obtain ⟨rfl, rfl⟩ : 0x20 + word.toNat = field ∧ [] = literals := by simpa using heq
      have hle : word.toNat ≤ 0x1f := hcompact.2
      exact ⟨by omega, op, hbind, hencode⟩
    · obtain ⟨rfl, rfl⟩ : 0x1f = field ∧ [word] = literals := by simpa using heq
      exact ⟨by omega, op, hbind, hencode⟩

/-! ### Missing labels -/

theorem getElem?_eq_none_of_find? {names : List Text} {name : Text}
    (h : names.find? (fun name => !final.contains name) = some name) :
    name ∈ names ∧ final[name]? = none := by
  refine ⟨List.mem_of_find?_eq_some h, ?_⟩
  have hmissing := List.find?_some h
  exact Std.TreeMap.getElem?_eq_none_of_contains_eq_false (by simpa using hmissing)

theorem mem_of_find?_eq_none {names : List Text}
    (h : names.find? (fun name => !final.contains name) = none) : ∀ name ∈ names, name ∈ final := by
  intro name hname
  have hpresent := List.find?_eq_none.1 h name hname
  rw [Std.TreeMap.mem_iff_contains]
  simpa using hpresent

theorem Term.bind_of_missing (hext : Extends symbols final) {t : Term} {name : Text}
    (hname : name ∈ t.labels) (h : final[name]? = none) :
    bindOperand final (t.operand symbols) = .error (.labelMissing name) := by
  cases t with
  | register reg | special sp | indirect reg => simp [Term.labels] at hname
  | offset reg a =>
    have hbind := (Assembly.bindValue_located symbols final a.value).trans (Atom.bindValue_of_missing hname h)
    exact congrArg (Except.map (Operand.registerOffset reg)) hbind
  | memory a =>
    have hbind := (Assembly.bindValue_located symbols final a.value).trans (Atom.bindValue_of_missing hname h)
    exact congrArg (Except.map Operand.memory) hbind
  | bare a =>
    cases a with
    | number w => simp [Term.labels, Atom.labels] at hname
    | label name' =>
      obtain rfl : name = name' := by simpa [Term.labels, Atom.labels] using hname
      have hearly : symbols[name]? = none := by
        cases hs : symbols[name]? with
        | none => rfl
        | some address => simp [hext name address hs] at h
      have hbare : Assembly.bare symbols (Atom.label name).value = .pending ⟨0, some name⟩ := by
        simp [Assembly.bare, Atom.value, hearly]
      have hself : name ∈ (Atom.label name).labels := List.mem_singleton_self name
      have hbind := Atom.bindValue_of_missing hself h
      rw [Term.operand, hbare]
      exact congrArg (Except.map Operand.nextWord) hbind

theorem Atom.exists_word? {a : Atom} (h : ∀ name ∈ a.labels, name ∈ final) :
    ∃ word, a.word? final = some word := by
  cases a with
  | number w => exact ⟨w, rfl⟩
  | label name =>
    have hname := h name (List.mem_singleton_self name)
    rw [Std.TreeMap.mem_iff_isSome_getElem?] at hname
    exact Option.isSome_iff_exists.1 hname

theorem Term.exists_code? {t : Term} (h : ∀ name ∈ t.labels, name ∈ final)
    (early : Text → Bool) : ∃ field literals, t.code? final early = some (field, literals) := by
  cases t with
  | register reg | special sp | indirect reg => exact ⟨_, _, rfl⟩
  | offset reg a | memory a | bare a =>
    obtain ⟨word, hword⟩ := Atom.exists_word? h
    exact ⟨_, _, by rw [Term.code?, hword, Option.map_some]⟩

/-! ### Statements -/

def Phrase.Named : Phrase → Prop
  | data _ => True
  | nonBasic op a => op.code ≤ Operand.fieldMask ∧ a.Named
  | basic op a b => op.code ≤ 15 ∧ a.Named ∧ b.Named

theorem Phrase.Spelt.named {evaluate : Evaluator} {tokens : List Text} {p : Phrase}
    (h : p.Spelt evaluate tokens) : p.Named := by
  cases h with
  | data _ _ _ => trivial
  | nonBasic hop ha =>
    obtain ⟨_, rfl⟩ := NonBasicOp.ofName?_eq_some_iff.1 hop
    exact ⟨by decide, ha.named⟩
  | basic hop ha hb => exact ⟨(BasicOp.code_of_ofName? hop).2, ha.named, hb.named⟩

theorem mapM_word?_of_present {values : List Atom}
    (h : ∀ name ∈ values.flatMap Atom.labels, name ∈ final) :
    ∃ bound, (values.map Atom.value).mapM (bindValue final) = .ok bound ∧
      values.mapM (Atom.word? final) = some (bound.map Value.word) := by
  induction values with
  | nil => exact ⟨[], rfl, rfl⟩
  | cons a rest ih =>
    simp only [List.flatMap_cons, List.mem_append] at h
    obtain ⟨word, hword⟩ := Atom.exists_word? fun name hname => h name (.inl hname)
    obtain ⟨bound, hbound, hwords⟩ := ih fun name hname => h name (.inr hname)
    refine ⟨⟨word, a.value.label⟩ :: bound, ?_, ?_⟩
    · rw [List.map_cons, List.mapM_cons, Atom.bindValue_of_word? hword, hbound]
      rfl
    · rw [List.mapM_cons, hword, hwords]
      rfl

theorem mapM_bindValue_of_missing {values : List Atom} {name : Text}
    (h : (values.flatMap Atom.labels).find? (fun name => !final.contains name) = some name) :
    (values.map Atom.value).mapM (bindValue final) = .error (.labelMissing name) := by
  induction values with
  | nil => simp at h
  | cons a rest ih =>
    rw [List.flatMap_cons, List.find?_append] at h
    rw [List.map_cons, List.mapM_cons]
    cases ha : a.labels.find? (fun name => !final.contains name) with
    | some found =>
      obtain rfl : found = name := by simpa [ha] using h
      obtain ⟨hmem, hnone⟩ := getElem?_eq_none_of_find? ha
      rw [Atom.bindValue_of_missing hmem hnone]
      rfl
    | none =>
      obtain ⟨word, hword⟩ := Atom.exists_word? (mem_of_find?_eq_none ha)
      rw [ha, Option.none_or] at h
      rw [Atom.bindValue_of_word? hword, ih h]
      rfl

theorem Phrase.bind_of_present (hext : Extends symbols final) {p : Phrase} (hnamed : p.Named)
    (h : ∀ name ∈ p.labels, name ∈ final) :
    ∃ bound words, (p.body symbols).bind final = .ok bound ∧ bound.encode = .ok words ∧
      p.words? final (symbols.contains ·) = some words := by
  cases p with
  | data values =>
    obtain ⟨bound, hbound, hwords⟩ := mapM_word?_of_present h
    refine ⟨.data bound, bound.map Value.word, ?_, rfl, hwords⟩
    exact congrArg (Except.map Body.data) hbound
  | nonBasic op a =>
    obtain ⟨hop, hnamedA⟩ := hnamed
    obtain ⟨field, literals, hcode⟩ := Term.exists_code? h (symbols.contains ·)
    obtain ⟨hle, boundA, hbind, hencodeA⟩ := Term.bind_of_code? hext hnamedA hcode
    have hencode : (Instruction.nonBasic op boundA).encode = _ :=
      Instruction.encode_nonBasic_eq_ok_iff.2 ⟨_, _, hencodeA, rfl⟩
    refine ⟨.instruction (.nonBasic op boundA), _, ?_, congrArg (Except.map Code.words) hencode, ?_⟩
    · simp [Phrase.body, Body.bind, bindInstruction, hbind, Except.map]
    · rw [Phrase.words?, hcode, Code.words_nonBasic hop hle]
      rfl
  | basic op a b =>
    obtain ⟨hop, hnamedA, hnamedB⟩ := hnamed
    simp only [Phrase.labels, List.mem_append] at h
    obtain ⟨fieldA, literalsA, hcodeA⟩ :=
      Term.exists_code? (fun name hname => h name (.inl hname)) (symbols.contains ·)
    obtain ⟨fieldB, literalsB, hcodeB⟩ :=
      Term.exists_code? (fun name hname => h name (.inr hname)) (symbols.contains ·)
    obtain ⟨hleA, boundA, hbindA, hencodeA⟩ := Term.bind_of_code? hext hnamedA hcodeA
    obtain ⟨hleB, boundB, hbindB, hencodeB⟩ := Term.bind_of_code? hext hnamedB hcodeB
    have hencode : (Instruction.basic op boundA boundB).encode = _ :=
      Instruction.encode_basic_eq_ok_iff.2 ⟨_, _, _, _, hencodeA, hencodeB, rfl⟩
    have hbind : bindInstruction final (.basic op (a.operand symbols) (b.operand symbols)) = _ :=
      bindInstruction_basic_eq_ok_iff.2 ⟨boundA, boundB, hbindA, hbindB, rfl⟩
    refine ⟨.instruction (.basic op boundA boundB), _, congrArg (Except.map Body.instruction) hbind,
      congrArg (Except.map Code.words) hencode, ?_⟩
    rw [Phrase.words?, hcodeA, hcodeB, Code.words_basic hop hleA hleB]

theorem Phrase.bind_of_missing (hext : Extends symbols final) {p : Phrase} (hnamed : p.Named)
    {name : Text} (h : p.labels.find? (fun name => !final.contains name) = some name) :
    (p.body symbols).bind final = .error (.labelMissing name) := by
  cases p with
  | data values => exact congrArg (Except.map Body.data) (mapM_bindValue_of_missing h)
  | nonBasic op a =>
    obtain ⟨hmem, hnone⟩ := getElem?_eq_none_of_find? h
    simp [Phrase.body, Body.bind, bindInstruction, Term.bind_of_missing hext hmem hnone, Except.map]
  | basic op a b =>
    -- Only if all labels of the first operand are declared can the second one be at fault.
    rw [Phrase.labels, List.find?_append] at h
    simp only [Phrase.body, Body.bind, bindInstruction]
    cases ha : a.labels.find? (fun name => !final.contains name) with
    | some found =>
      obtain rfl : found = name := by simpa [ha] using h
      obtain ⟨hmem, hnone⟩ := getElem?_eq_none_of_find? ha
      rw [Term.bind_of_missing hext hmem hnone]
      rfl
    | none =>
      obtain ⟨field, literals, hcode⟩ := Term.exists_code? (mem_of_find?_eq_none ha) (symbols.contains ·)
      obtain ⟨_, boundA, hbind, _⟩ := Term.bind_of_code? hext hnamed.2.1 hcode
      rw [ha, Option.none_or] at h
      obtain ⟨hmem, hnone⟩ := getElem?_eq_none_of_find? h
      rw [hbind, Term.bind_of_missing hext hmem hnone]
      rfl

end
end Asm16.Grammar
