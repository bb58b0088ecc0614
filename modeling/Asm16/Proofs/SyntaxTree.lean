import Asm16.Proofs.Grammar
import Asm16.Proofs.Positional

/-! Syntax trees of statements. A tree holds the tokens that it is written with, each with what makes it
a token of its kind, so that there is no tree of an ill-formed statement. Its tokens and its meaning are
read off its shape. A statement is accepted if and only if its tokens are those of a tree, and it is then
what the tree means. -/

namespace Asm16

theorem Assembly.wordOfInt?_eq_some_iff {n : Int} {word : UInt16} :
    wordOfInt? n = some word ↔ -0x8000 ≤ n ∧ n ≤ 0xffff ∧ word = UInt16.ofInt n := by
  unfold wordOfInt?
  split
  · rename_i hrange
    rw [Option.some.injEq, eq_comm, and_iff_right hrange.1, and_iff_right hrange.2]
    rfl
  · rename_i hrange
    exact ⟨nofun, fun h => absurd ⟨h.1, h.2.1⟩ hrange⟩

namespace SyntaxTree

open Assembly

/-! An atom is a number, an expression or a label, and a quantity an atom or a negated number or expression. An
argument is a register, a special operand or a quantity, or in brackets a register, an atom, or both with a
plus between them in either order. -/

/-- A token that is an entry of a table in upper case. -/
structure Named (table : List Text) where
  token : Text
  index : Nat
  found : table[index]? = some (Text.upper token)

structure Label where
  name : Text
  form : isLabel name = true
  free : Text.upper name ∉ Register.names ∧ Text.upper name ∉ Special.names

inductive Literal (evaluate : Evaluator) where
  | number (token : Text) (word : UInt16) (h : Numeral.Denotes token word.toNat)
  | expression (inner : Text) (n : Int) (h : evaluate inner = some n) (low : -0x8000 ≤ n) (high : n ≤ 0xffff)

inductive Atom (evaluate : Evaluator) where
  | literal (l : Literal evaluate)
  | label (l : Label)

inductive Quantity (evaluate : Evaluator) where
  | atom (a : Atom evaluate)
  | negative (l : Literal evaluate)

inductive Argument (evaluate : Evaluator) where
  | register (r : Named Register.names)
  | special (s : Named Special.names)
  | quantity (q : Quantity evaluate)
  | indirect (r : Named Register.names)
  | memory (a : Atom evaluate)
  | offset (a : Atom evaluate) (r : Named Register.names)
  | indexed (r : Named Register.names) (a : Atom evaluate)

end SyntaxTree

inductive SyntaxTree (evaluate : Assembly.Evaluator) where
  | data (mnemonic : SyntaxTree.Named [ascii "DAT"]) (first : SyntaxTree.Quantity evaluate)
    (more : List (SyntaxTree.Quantity evaluate))
  | call (mnemonic : SyntaxTree.Named [ascii "JSR"]) (a : SyntaxTree.Argument evaluate)
  | basic (mnemonic : SyntaxTree.Named BasicOp.names) (a b : SyntaxTree.Argument evaluate)

namespace SyntaxTree

open Assembly

variable {evaluate : Evaluator}

def Literal.token : Literal evaluate → Text
  | number token _ _ => token
  | expression inner _ _ _ _ => Token.expressionStart ++ (inner ++ [Token.closeParen])

def Atom.token : Atom evaluate → Text
  | literal l => l.token
  | label l => l.name

def Quantity.tokens : Quantity evaluate → List Text
  | atom a => [a.token]
  | negative l => [minusToken, l.token]

def Argument.tokens : Argument evaluate → List Text
  | register r => [r.token]
  | special s => [s.token]
  | quantity q => q.tokens
  | indirect r => [openToken, r.token, closeToken]
  | memory a => [openToken, a.token, closeToken]
  | offset a r => [openToken, a.token, plusToken, r.token, closeToken]
  | indexed r a => [openToken, r.token, plusToken, a.token, closeToken]

def tokens : SyntaxTree evaluate → List Text
  | data mnemonic first more =>
    mnemonic.token :: (first.tokens ++ more.flatMap fun q => commaToken :: q.tokens)
  | call mnemonic a => mnemonic.token :: a.tokens
  | basic mnemonic a b => mnemonic.token :: (a.tokens ++ commaToken :: b.tokens)

def Literal.word : Literal evaluate → UInt16
  | number _ word _ => word
  | expression _ n _ _ _ => UInt16.ofInt n

def Atom.value : Atom evaluate → Value
  | literal l => ⟨l.word, none⟩
  | label l => ⟨0, some l.name⟩

/-- The value of an atom in brackets. A label has the address it is declared with, or none yet and counts as zero. -/
def Atom.valueIn (symbols : Symbols) : Atom evaluate → Value
  | literal l => ⟨l.word, none⟩
  | label l => ⟨symbols[l.name]?.getD 0, some l.name⟩

def Quantity.value : Quantity evaluate → Value
  | atom a => a.value
  | negative l => ⟨-l.word, none⟩

/-- A label that is declared is as good as its address; one that is not takes a word of its own. -/
def Quantity.operand (symbols : Symbols) : Quantity evaluate → Operand
  | atom (.literal l) => .literal ⟨l.word, none⟩
  | atom (.label l) =>
    match symbols[l.name]? with
    | some address => .literal ⟨address, some l.name⟩
    | none => .pending ⟨0, some l.name⟩
  | negative l => .literal ⟨-l.word, none⟩

def Named.register (r : Named Register.names) : Register := ⟨UInt8.ofNat r.index⟩

def Argument.operand (symbols : Symbols) : Argument evaluate → Operand
  | register r => .register r.register
  | special s => .special ⟨0x18 + UInt8.ofNat s.index⟩
  | quantity q => q.operand symbols
  | indirect r => .registerIndirect r.register
  | memory a => .memory (a.valueIn symbols)
  | offset a r => .registerOffset r.register (a.valueIn symbols)
  | indexed r a => .registerOffset r.register (a.valueIn symbols)

def body (symbols : Symbols) : SyntaxTree evaluate → Body
  | data _ first more => .data ((first :: more).map Quantity.value)
  | call _ a => .instruction (.nonBasic .jsr (a.operand symbols))
  | basic mnemonic a b =>
    .instruction (.basic ⟨UInt8.ofNat (mnemonic.index + 1)⟩ (a.operand symbols) (b.operand symbols))

theorem map_idxOf?_eq_some_iff {α : Type} {table : List Text} (hnodup : table.Nodup) {f : Nat → α}
    {word : Text} {a : α} :
    (table.idxOf? word).map f = some a ↔ ∃ n, table[n]? = some word ∧ f n = a := by
  rw [Option.map_eq_some_iff]
  refine exists_congr fun n => and_congr_left fun _ => ?_
  rw [List.idxOf?_eq_some_iff, List.getElem?_eq_some_iff]
  constructor
  · rintro ⟨hlt, hword, -⟩
    exact ⟨hlt, hword⟩
  · rintro ⟨hlt, hword⟩
    refine ⟨hlt, hword, fun j hj hsame => ?_⟩
    have hindex : j = n := (List.getElem_inj hnodup).1 (hsame.trans hword.symm)
    omega

theorem nodup_registers : Register.names.Nodup := by decide

theorem nodup_specials : Special.names.Nodup := by decide

theorem nodup_basics : BasicOp.names.Nodup := by decide

theorem Named.ofName?_register (r : Named Register.names) :
    Register.ofName? r.token = some r.register :=
  (map_idxOf?_eq_some_iff nodup_registers).2 ⟨r.index, r.found, rfl⟩

theorem exists_named_register {token : Text} {reg : Register} (h : Register.ofName? token = some reg) :
    ∃ r : Named Register.names, r.token = token ∧ r.register = reg := by
  obtain ⟨n, hn, hreg⟩ := (map_idxOf?_eq_some_iff nodup_registers).1 h
  exact ⟨⟨token, n, hn⟩, rfl, hreg⟩

theorem Named.upper_eq {word : Text} (m : Named [word]) : Text.upper m.token = word := by
  have hmem := List.mem_of_getElem? m.found
  exact List.mem_singleton.1 hmem

theorem Literal.numberWord_eq (l : Literal evaluate) : numberWord evaluate l.token = .ok l.word := by
  cases l with
  | number token word h =>
    refine numberWord_of_word? evaluate ?_ (Numeral.word?_eq_some_iff.2 h)
    rintro ⟨after, rfl⟩
    have hdollar : Text.isDigit Token.dollar = true := h.isDigit_head
    contradiction
  | expression inner n h low high =>
    have hword := wordOfInt?_eq_some_iff.2 ⟨low, high, rfl⟩
    have hstart : Token.expressionStart.isPrefixOf
        (Token.expressionStart ++ (inner ++ [Token.closeParen])) = true :=
      List.isPrefixOf_iff_prefix.2 (List.prefix_append _ _)
    have hdrop : (Token.expressionStart ++ (inner ++ [Token.closeParen])).drop 2 =
        inner ++ [Token.closeParen] := rfl
    rw [Literal.token, numberWord.eq_def, if_pos hstart, expressionWord, hdrop]
    simp [h, hword, Literal.word]

theorem exists_literal_of_numberWord {token : Text} {word : UInt16}
    (h : numberWord evaluate token = .ok word) :
    ∃ l : Literal evaluate, l.token = token ∧ l.word = word := by
  unfold numberWord at h
  split at h
  · rename_i hstart
    obtain ⟨after, rfl⟩ := List.isPrefixOf_iff_prefix.1 hstart
    have hdrop : (Token.expressionStart ++ after).drop 2 = after := rfl
    simp only [expressionWord, hdrop] at h
    split at h
    · rename_i hlast
      obtain ⟨inner, rfl⟩ := List.getLast?_eq_some_iff.1 hlast
      rw [List.dropLast_concat] at h
      split at h
      · rename_i found hfound
        obtain rfl := Except.ok.inj h
        obtain ⟨n, hn, hword⟩ := Option.bind_eq_some_iff.1 hfound
        obtain ⟨low, high, rfl⟩ := wordOfInt?_eq_some_iff.1 hword
        exact ⟨.expression inner n hn low high, rfl, rfl⟩
      · contradiction
    · contradiction
  · split at h
    · contradiction
    · split at h
      · split at h
        · rename_i found hfound
          obtain rfl := Except.ok.inj h
          exact ⟨.number _ found (Numeral.word?_eq_some_iff.1 hfound), rfl, rfl⟩
        · contradiction
      · contradiction

def Atom.spells : Atom evaluate → Grammar.Atom
  | literal l => .number l.word
  | label l => .label l.name

def Quantity.spells : Quantity evaluate → Grammar.Atom
  | atom a => a.spells
  | negative l => .number (-l.word)

def Argument.spells : Argument evaluate → Grammar.Term
  | register r => .register r.register
  | special s => .special ⟨0x18 + UInt8.ofNat s.index⟩
  | quantity q => .bare q.spells
  | indirect r => .indirect r.register
  | memory a => .memory a.spells
  | offset a r => .offset r.register a.spells
  | indexed r a => .offset r.register a.spells

def spells : SyntaxTree evaluate → Grammar.Phrase
  | data _ first more => .data ((first :: more).map Quantity.spells)
  | call _ a => .nonBasic .jsr a.spells
  | basic mnemonic a b => .basic ⟨UInt8.ofNat (mnemonic.index + 1)⟩ a.spells b.spells

theorem Label.isReserved_eq (l : Label) : isReserved l.name = false := by
  rw [Bool.eq_false_iff, ne_eq, isReserved_iff, not_or]
  exact l.free

theorem Atom.spelt (a : Atom evaluate) : a.spells.Spelt evaluate a.token := by
  cases a with
  | literal l => exact .number l.numberWord_eq
  | label l => exact .label l.form l.isReserved_eq

theorem exists_atom_of_spelt {token : Text} {g : Grammar.Atom} (h : g.Spelt evaluate token) :
    ∃ a : Atom evaluate, a.token = token ∧ a.spells = g := by
  cases h with
  | number hword =>
    obtain ⟨l, rfl, rfl⟩ := exists_literal_of_numberWord hword
    exact ⟨.literal l, rfl, rfl⟩
  | label hlabel hfree =>
    rw [Bool.eq_false_iff, ne_eq, isReserved_iff, not_or] at hfree
    exact ⟨.label ⟨token, hlabel, hfree⟩, rfl, rfl⟩

theorem Quantity.spelt (q : Quantity evaluate) : q.spells.SpeltFreely evaluate q.tokens := by
  cases q with
  | atom a => exact .atom a.spelt
  | negative l => exact .negative l.numberWord_eq

theorem exists_quantity_of_spelt {tokens : List Text} {g : Grammar.Atom}
    (h : g.SpeltFreely evaluate tokens) : ∃ q : Quantity evaluate, q.tokens = tokens ∧ q.spells = g := by
  cases h with
  | atom ha =>
    obtain ⟨a, rfl, rfl⟩ := exists_atom_of_spelt ha
    exact ⟨.atom a, rfl, rfl⟩
  | negative hword =>
    obtain ⟨l, rfl, rfl⟩ := exists_literal_of_numberWord hword
    exact ⟨.negative l, rfl, rfl⟩

theorem Argument.spelt (a : Argument evaluate) : a.spells.Spelt evaluate a.tokens := by
  cases a with
  | register r => exact .register r.ofName?_register
  | special s => exact .special ((map_idxOf?_eq_some_iff nodup_specials).2 ⟨s.index, s.found, rfl⟩)
  | quantity q => exact .bare q.spelt
  | indirect r => exact .indirect r.ofName?_register
  | memory a => exact .memory a.spelt
  | offset a r => exact .offsetFirst a.spelt r.ofName?_register
  | indexed r a => exact .registerFirst a.spelt r.ofName?_register

theorem exists_argument_of_spelt {tokens : List Text} {t : Grammar.Term} (h : t.Spelt evaluate tokens) :
    ∃ a : Argument evaluate, a.tokens = tokens ∧ a.spells = t := by
  cases h with
  | register hreg =>
    obtain ⟨r, rfl, rfl⟩ := exists_named_register hreg
    exact ⟨.register r, rfl, rfl⟩
  | special hsp =>
    obtain ⟨n, hn, rfl⟩ := (map_idxOf?_eq_some_iff nodup_specials).1 hsp
    exact ⟨.special ⟨_, n, hn⟩, rfl, rfl⟩
  | bare hvalue =>
    obtain ⟨q, rfl, rfl⟩ := exists_quantity_of_spelt hvalue
    exact ⟨.quantity q, rfl, rfl⟩
  | indirect hreg =>
    obtain ⟨r, rfl, rfl⟩ := exists_named_register hreg
    exact ⟨.indirect r, rfl, rfl⟩
  | memory ha =>
    obtain ⟨a, rfl, rfl⟩ := exists_atom_of_spelt ha
    exact ⟨.memory a, rfl, rfl⟩
  | offsetFirst ha hreg =>
    obtain ⟨a, rfl, rfl⟩ := exists_atom_of_spelt ha
    obtain ⟨r, rfl, rfl⟩ := exists_named_register hreg
    exact ⟨.offset a r, rfl, rfl⟩
  | registerFirst ha hreg =>
    obtain ⟨a, rfl, rfl⟩ := exists_atom_of_spelt ha
    obtain ⟨r, rfl, rfl⟩ := exists_named_register hreg
    exact ⟨.indexed r a, rfl, rfl⟩

theorem intercalate_tokens (first : Quantity evaluate) (more : List (Quantity evaluate)) :
    [commaToken].intercalate ((first :: more).map Quantity.tokens) =
      first.tokens ++ more.flatMap fun q => commaToken :: q.tokens := by
  induction more generalizing first with
  | nil => simp
  | cons next more ih =>
    rw [List.map_cons, List.map_cons, List.intercalate_cons_cons, ← List.map_cons, ih, List.flatMap_cons]
    simp

theorem exists_quantities_of_spelt {arguments : List (List Text)} {values : List Grammar.Atom}
    (h : List.Forall₂ (Grammar.Atom.SpeltFreely evaluate) arguments values) :
    ∃ qs : List (Quantity evaluate), qs.map Quantity.tokens = arguments ∧ qs.map Quantity.spells = values := by
  induction h with
  | nil => exact ⟨[], rfl, rfl⟩
  | cons hspelt _ ih =>
    obtain ⟨q, rfl, rfl⟩ := exists_quantity_of_spelt hspelt
    obtain ⟨qs, rfl, rfl⟩ := ih
    exact ⟨q :: qs, rfl, rfl⟩

theorem spelt (tree : SyntaxTree evaluate) : tree.spells.Spelt evaluate tree.tokens := by
  cases tree with
  | data mnemonic first more =>
    rw [tokens, ← intercalate_tokens]
    refine .data mnemonic.upper_eq (by simp) ?_
    rw [List.forall₂_map_left_iff, List.forall₂_map_right_iff]
    exact List.forall₂_same.2 fun q _ => q.spelt
  | call mnemonic a => exact .nonBasic (NonBasicOp.ofName?_eq_some_iff.2 ⟨mnemonic.upper_eq, rfl⟩) a.spelt
  | basic mnemonic a b =>
    refine .basic ?_ a.spelt b.spelt
    exact (map_idxOf?_eq_some_iff nodup_basics).2 ⟨mnemonic.index, mnemonic.found, rfl⟩

theorem exists_tree_of_spelt {tokens : List Text} {p : Grammar.Phrase} (h : p.Spelt evaluate tokens) :
    ∃ tree : SyntaxTree evaluate, tree.tokens = tokens ∧ tree.spells = p := by
  cases h with
  | data hdat hne hvalues =>
    obtain ⟨qs, rfl, rfl⟩ := exists_quantities_of_spelt hvalues
    obtain ⟨first, more, rfl⟩ := List.exists_cons_of_ne_nil (mt List.map_eq_nil_iff.2 hne)
    refine ⟨.data ⟨_, 0, congrArg some hdat.symm⟩ first more, ?_, rfl⟩
    rw [SyntaxTree.tokens, intercalate_tokens]
  | nonBasic hop ha =>
    obtain ⟨hjsr, rfl⟩ := NonBasicOp.ofName?_eq_some_iff.1 hop
    obtain ⟨a, rfl, rfl⟩ := exists_argument_of_spelt ha
    exact ⟨.call ⟨_, 0, congrArg some hjsr.symm⟩ a, rfl, rfl⟩
  | basic hop ha hb =>
    obtain ⟨n, hn, rfl⟩ := (map_idxOf?_eq_some_iff nodup_basics).1 hop
    obtain ⟨a, rfl, rfl⟩ := exists_argument_of_spelt ha
    obtain ⟨b, rfl, rfl⟩ := exists_argument_of_spelt hb
    exact ⟨.basic ⟨_, n, hn⟩ a b, rfl, rfl⟩

theorem Atom.value_eq (a : Atom evaluate) : a.value = a.spells.value := by
  cases a <;> rfl

theorem Atom.valueIn_eq (symbols : Symbols) (a : Atom evaluate) :
    a.valueIn symbols = located symbols a.spells.value := by
  cases a with
  | literal l => rfl
  | label l => exact congrArg (Value.mk · _) (Std.TreeMap.getD_eq_getD_getElem? ..).symm

theorem Quantity.value_eq (q : Quantity evaluate) : q.value = q.spells.value := by
  cases q with
  | atom a => exact a.value_eq
  | negative l => rfl

theorem Quantity.operand_eq (symbols : Symbols) (q : Quantity evaluate) :
    q.operand symbols = Assembly.bare symbols q.spells.value := by
  cases q with
  | negative l => rfl
  | atom a =>
    cases a with
    | literal l => rfl
    | label l => rfl

theorem Argument.operand_eq (symbols : Symbols) (a : Argument evaluate) :
    a.operand symbols = a.spells.operand symbols := by
  cases a with
  | register r | special s | indirect r => rfl
  | quantity q => exact q.operand_eq symbols
  | memory a => exact congrArg Operand.memory (a.valueIn_eq symbols)
  | offset a r | indexed r a => exact congrArg (Operand.registerOffset r.register) (a.valueIn_eq symbols)

theorem body_eq (symbols : Symbols) (tree : SyntaxTree evaluate) :
    tree.body symbols = tree.spells.body symbols := by
  cases tree with
  | data mnemonic first more =>
    rw [body, spells, Grammar.Phrase.body, List.map_map]
    exact congrArg Body.data (List.map_congr_left fun q _ => q.value_eq)
  | call mnemonic a => rw [body, spells, Grammar.Phrase.body, a.operand_eq]
  | basic mnemonic a b => rw [body, spells, Grammar.Phrase.body, a.operand_eq, b.operand_eq]

/-- A statement is accepted if and only if its tokens are those of a syntax tree, and it is what the tree
means. -/
theorem statement_eq_ok_iff_tree (evaluate : Evaluator) (symbols : Symbols) (mnemonic : Text)
    (rest : List Text) (body : Body) :
    statement evaluate symbols mnemonic rest = .ok body ↔
      ∃ tree : SyntaxTree evaluate, tree.tokens = mnemonic :: rest ∧ tree.body symbols = body := by
  rw [Grammar.statement_eq_ok_iff]
  constructor
  · rintro ⟨p, hspelt, rfl⟩
    obtain ⟨tree, htokens, rfl⟩ := exists_tree_of_spelt hspelt
    exact ⟨tree, htokens, tree.body_eq symbols⟩
  · rintro ⟨tree, htokens, rfl⟩
    exact ⟨tree.spells, htokens ▸ tree.spelt, tree.body_eq symbols⟩

/-- In brackets a declared label has its address at once, on either side of the plus. -/
example :
    statement (fun _ => none) ((∅ : Symbols).insert (ascii "at") 5) (ascii "SET")
        [openToken, ascii "B", plusToken, ascii "at", closeToken, commaToken, openToken, ascii "on", closeToken] =
      .ok (.instruction (.basic ⟨1⟩ (.registerOffset ⟨1⟩ ⟨5, some (ascii "at")⟩)
        (.memory ⟨0, some (ascii "on")⟩))) := by
  decide +kernel

end SyntaxTree
end Asm16
