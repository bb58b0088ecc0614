import Asm16.CommandLine.Report
import Asm16.Proofs.History
import Asm16.Proofs.Identifier
import Asm16.Proofs.Rewriting

/-! Definitions of constants. A source is assembled in the same way, or fails in the same way, under any two
sequences of definitions that give the same last values to the names mentioned in it. Their order, the values
that are overwritten and the constants that are not mentioned make no difference, in a session as on the
command line. -/

namespace Asm16

namespace Assembly

def expressionText? (token : Text) : Option Text :=
  if Token.expressionStart.isPrefixOf token ∧ (token.drop 2).getLast? = some Token.closeParen then
    some (token.drop 2).dropLast
  else none

def Source.expressions (source : Source) : List Text :=
  source.lines.flatMap fun line => (Token.ofLine line).filterMap expressionText?

/-- The names that are written as identifiers in the expressions of a source. -/
def Source.mentioned (source : Source) : List Text := source.expressions.flatMap Constant.identifiers

section
variable {evaluate other : Evaluator}

theorem numberWord_congr {token : Text} (h : ∀ inner ∈ expressionText? token, evaluate inner = other inner) :
    numberWord evaluate token = numberWord other token := by
  unfold numberWord
  split
  · rename_i hstart
    unfold expressionWord
    dsimp only
    split
    · rename_i hlast
      rw [h _ (if_pos ⟨hstart, hlast⟩)]
    · rfl
  · rfl

/-- Each of some tokens stands for the same word, or for none with the same fault. -/
def SameWords (evaluate other : Evaluator) (tokens : List Text) : Prop :=
  ∀ token ∈ tokens, numberWord evaluate token = numberWord other token

theorem atom_congr {token : Text} (h : numberWord evaluate token = numberWord other token) :
    atom evaluate token = atom other token := by
  rw [atom, atom, h]

theorem value_congr {tokens : List Text} (h : SameWords evaluate other tokens) :
    value evaluate tokens = value other tokens := by
  unfold value
  split
  · rename_i token
    exact atom_congr (h token (List.mem_singleton_self token))
  · rename_i minus token
    rw [h token (by simp)]
  · rfl

theorem bracketed_congr (symbols : Symbols) (whole : Text) {inner : List Text} (h : SameWords evaluate other inner) :
    bracketed evaluate symbols whole inner = bracketed other symbols whole inner := by
  unfold bracketed
  split
  · rename_i token
    rw [atom_congr (h token (List.mem_singleton_self token))]
  · rename_i left plus right
    dsimp only
    split
    · rename_i token reg hsplit
      have hmem : token = left ∨ token = right := by
        split at hsplit
        · split at hsplit
          · exact .inl (Prod.mk.inj (Option.some.inj hsplit)).1.symm
          · obtain ⟨_, -, heq⟩ := Option.map_eq_some_iff.1 hsplit
            exact .inr (Prod.mk.inj heq).1.symm
        · contradiction
      have htoken : atom evaluate token = atom other token := by
        rcases hmem with rfl | rfl
        · exact atom_congr (h _ (by simp))
        · exact atom_congr (h _ (by simp))
      rw [htoken]
    · rfl
  · rfl

theorem operand_congr (symbols : Symbols) {tokens : List Text} (h : SameWords evaluate other tokens) :
    operand evaluate symbols tokens = operand other symbols tokens := by
  cases tokens with
  | nil => rfl
  | cons first rest =>
    have hinner : SameWords evaluate other rest.dropLast :=
      fun token htoken => h token (List.mem_cons_of_mem _ ((List.dropLast_sublist rest).subset htoken))
    rw [operand, operand, bracketed_congr symbols _ hinner, value_congr h]

theorem dataFrom_congr (values : List Value) {arguments : List (List Text)}
    (h : ∀ argument ∈ arguments, SameWords evaluate other argument) :
    dataFrom evaluate values arguments = dataFrom other values arguments := by
  induction arguments generalizing values with
  | nil => rfl
  | cons argument rest ih =>
    obtain ⟨hfirst, hrest⟩ := List.forall_mem_cons.1 h
    rw [dataFrom, dataFrom, value_congr hfirst]
    split
    · exact ih _ hrest
    · rfl

theorem nonBasic_congr (symbols : Symbols) (op : NonBasicOp) {arguments : List (List Text)}
    (h : ∀ argument ∈ arguments, SameWords evaluate other argument) :
    nonBasic evaluate symbols op arguments = nonBasic other symbols op arguments := by
  unfold nonBasic
  split
  · rename_i argument
    rw [operand_congr symbols (h argument (List.mem_singleton_self argument))]
  · rfl

theorem basic_congr (symbols : Symbols) (op : BasicOp) {arguments : List (List Text)}
    (h : ∀ argument ∈ arguments, SameWords evaluate other argument) :
    basic evaluate symbols op arguments = basic other symbols op arguments := by
  unfold basic
  split
  · rename_i left right
    rw [operand_congr symbols (h left (by simp)), operand_congr symbols (h right (by simp))]
  · rfl
  · rfl

theorem statement_congr (symbols : Symbols) (mnemonic : Text) {rest : List Text} (h : SameWords evaluate other rest) :
    statement evaluate symbols mnemonic rest = statement other symbols mnemonic rest := by
  have harguments : ∀ argument ∈ rest.splitOn commaToken, SameWords evaluate other argument :=
    fun argument hargument token htoken => h token (mem_of_mem_splitOn hargument htoken)
  unfold statement
  simp only [dataFrom_congr [] harguments, nonBasic_congr symbols _ harguments, basic_congr symbols _ harguments]

theorem Layout.addLine_congr {line : Text} (h : SameWords evaluate other (Token.ofLine line)) (number : Nat)
    (layout : Layout) : layout.addLine evaluate number line = layout.addLine other number line := by
  unfold addLine
  split
  · rfl
  · rfl
  · rename_i symbols mnemonic rest hdeclare
    have hsplit := declaring_append_lineStatement (Token.ofLine line)
    rw [← (declares_of_declare hdeclare).1] at hsplit
    have hmem : ∀ token ∈ rest, token ∈ Token.ofLine line := by
      intro token htoken
      rw [← hsplit]
      exact List.mem_append_right _ (List.mem_cons_of_mem _ htoken)
    rw [statement_congr symbols mnemonic fun token htoken => h token (hmem token htoken)]

theorem Layout.addLines_congr {lines : List Text} (h : ∀ line ∈ lines, SameWords evaluate other (Token.ofLine line))
    (number : Nat) (layout : Layout) :
    addLines evaluate number layout lines = addLines other number layout lines := by
  induction lines generalizing number layout with
  | nil => rfl
  | cons line rest ih =>
    obtain ⟨hline, hrest⟩ := List.forall_mem_cons.1 h
    rw [addLines, addLines, addLine_congr hline]
    split
    · rfl
    · exact ih hrest _ _

/-- A source is assembled in the same way wherever the expressions in it have the same values. -/
theorem parse_congr {source : Source} (h : ∀ inner ∈ source.expressions, evaluate inner = other inner) :
    parse evaluate source = parse other source := by
  have hwords : ∀ line ∈ source.lines, SameWords evaluate other (Token.ofLine line) := by
    intro line hline token htoken
    apply numberWord_congr
    intro inner hinner
    exact h inner (List.mem_flatMap.2 ⟨line, hline, List.mem_filterMap.2 ⟨token, htoken, hinner⟩⟩)
  rw [parse, parse, Layout.ofSource, Layout.ofSource, Layout.addLines_congr hwords]

theorem parse_evaluate?_congr {constants others : Constant.Constants} {source : Source}
    (h : ∀ name ∈ source.mentioned, constants[name]? = others[name]?) :
    parse (Constant.evaluate? constants) source = parse (Constant.evaluate? others) source := by
  apply parse_congr
  intro inner hinner
  apply Constant.evaluate?_congr
  intro name hname
  exact h name (List.mem_flatMap.2 ⟨inner, hinner, hname⟩)

end
end Assembly

namespace Constant

def lastValue? (definitions : List (Text × Int)) (name : Text) : Option Int :=
  definitions.reverse.findSome? fun definition => if definition.1 = name then some definition.2 else none

theorem lastValue?_append (before after : List (Text × Int)) (name : Text) :
    lastValue? (before ++ after) name = (lastValue? after name).or (lastValue? before name) := by
  rw [lastValue?, List.reverse_append, List.findSome?_append]
  rfl

theorem getElem?_insert_eq (constants : Constants) (definition : Text × Int) (name : Text) :
    (constants.insert definition.1 definition.2)[name]? = (lastValue? [definition] name).or constants[name]? := by
  simp only [Std.TreeMap.getElem?_insert, Std.LawfulEqCmp.compare_eq_iff_eq, lastValue?, List.reverse_singleton,
    List.findSome?_singleton]
  split <;> rfl

end Constant

namespace Session

def Step.definition? : Step → Option (Text × Int)
  | predefine name value => some (name, value)
  | _ => none

def definitions (steps : List Step) : List (Text × Int) := steps.filterMap Step.definition?

theorem getElem?_constants_after (steps : List Step) (name : Text) :
    (after {} steps).constants[name]? = Constant.lastValue? (definitions steps) name := by
  have hvalue : Step.value? name = fun step => step.definition?.bind fun definition =>
      if definition.1 = name then some definition.2 else none := by
    funext step
    cases step <;> rfl
  have hfresh := getElem?_constants_fresh steps name
  rw [fresh_eq, hvalue] at hfresh
  rw [hfresh, Constant.lastValue?, definitions, ← List.filterMap_reverse, ← List.head?_filterMap,
    ← List.head?_filterMap, List.filterMap_filterMap]

end Session

namespace CommandLine

def settings : List Text → List (Slot × Text)
  | [] => []
  | argument :: rest =>
    match Argument.ofText argument with
    | .option name value =>
      match Slot.ofName? name, value, rest with
      | some slot, some value, rest => (slot, value) :: settings rest
      | some slot, none, value :: rest => (slot, value) :: settings rest
      | _, _, rest => settings rest
    | _ => []

def definition? : Slot × Text → Option (Text × Int)
  | (.define, value) =>
    match Text.cut? equals value with
    | some (name@(_ :: _), number) => (Numeral.signed number).toOption.map (name, ·)
    | _ => none
  | _ => none

def definitions (arguments : List Text) : List (Text × Int) := (settings arguments).filterMap definition?

theorem getElem?_constants_of_define {o next : Options} {value : Text} (h : o.define value = .ok next) (key : Text) :
    next.constants[key]? = (Constant.lastValue? (definition? (.define, value)).toList key).or o.constants[key]? := by
  unfold Options.define at h
  unfold definition?
  split at h
  · rename_i number _ _ hcut
    split at h
    · rename_i n hn
      obtain rfl := Except.ok.inj h
      simp only [hcut, hn]
      exact Constant.getElem?_insert_eq o.constants (_, n) key
    · contradiction
  · contradiction

theorem getElem?_constants_of_set {o next : Options} {slot : Slot} {name value : Text}
    (h : o.set slot name value = .ok next) (key : Text) :
    next.constants[key]? = (Constant.lastValue? (definition? (slot, value)).toList key).or o.constants[key]? := by
  cases slot with
  | compile | disassemble | output =>
    obtain rfl := Except.ok.inj h
    rfl
  | define =>
    unfold Options.set at h
    dsimp only at h
    split at h
    · rename_i found hdefine
      obtain rfl := Except.ok.inj h
      exact getElem?_constants_of_define hdefine key
    · contradiction

theorem constants_of_setVerbose {o next : Options} {name : Text} {value : Option Text}
    (h : o.setVerbose name value = .ok next) : next.constants = o.constants := by
  unfold Options.setVerbose at h
  split at h
  · obtain rfl := Except.ok.inj h
    rfl
  · split at h
    · obtain rfl := Except.ok.inj h
      rfl
    · contradiction

theorem definitions_of_settings {arguments rest : List Text} {setting : Slot × Text}
    (h : settings arguments = setting :: settings rest) :
    definitions arguments = (definition? setting).toList ++ definitions rest := by
  rw [definitions, h, List.filterMap_cons]
  cases definition? setting <;> rfl

/-- The options read hold the last values defined among the arguments, over those defined before. -/
theorem getElem?_constants_of_readFrom {o last : Options} {arguments extra : List Text}
    (h : o.readFrom arguments = .ok (last, extra)) (key : Text) :
    last.constants[key]? = (Constant.lastValue? (definitions arguments) key).or o.constants[key]? := by
  fun_induction Options.readFrom o arguments with
  | case1 o =>
    obtain ⟨rfl, -⟩ := Prod.mk.inj (Except.ok.inj h)
    rfl
  | case2 o argument rest hkind | case3 o argument rest hkind =>
    obtain ⟨rfl, -⟩ := Prod.mk.inj (Except.ok.inj h)
    rw [definitions, settings, hkind]
    rfl
  | case5 o argument rest value next hkind hverbose ih =>
    rw [ih h, constants_of_setVerbose hverbose, definitions, definitions, settings, hkind]
    rfl
  | case9 o argument name hname slot hslot value rest next hset hkind ih =>
    have hsettings : settings (argument :: rest) = (slot, value) :: settings rest := by
      simp only [settings, hkind, hslot]
    rw [ih h, getElem?_constants_of_set hset, ← Option.or_assoc, ← Constant.lastValue?_append,
      definitions_of_settings hsettings]
  | case11 o argument name hname slot hslot value rest next hset hkind ih =>
    have hsettings : settings (argument :: value :: rest) = (slot, value) :: settings rest := by
      simp only [settings, hkind, hslot]
    rw [ih h, getElem?_constants_of_set hset, ← Option.or_assoc, ← Constant.lastValue?_append,
      definitions_of_settings hsettings]
  | case4 | case6 | case7 | case8 | case10 | case12 | case13 => contradiction

theorem getElem?_constants_of_prepare {arguments : List Text} {o : Options} (h : prepare arguments = .ok o)
    (name : Text) : o.constants[name]? = Constant.lastValue? (definitions arguments) name := by
  unfold prepare at h
  split at h
  · contradiction
  · contradiction
  · rename_i found hread
    split at h
    · contradiction
    · obtain rfl := Except.ok.inj h
      rw [getElem?_constants_of_readFrom hread]
      exact Option.or_none
  · contradiction

end CommandLine

/-- A source gives the same program or the same error under any two sequences of definitions that end with the
same values of the names mentioned in it: those of two sessions, or those of two command lines. -/
theorem parse_eq_of_lastValue?_eq (text : Text) :
    (∀ steps steps' : List Session.Step,
      (∀ name ∈ (Assembly.Source.ofText text).mentioned,
        Constant.lastValue? (Session.definitions steps) name =
          Constant.lastValue? (Session.definitions steps') name) →
      (Session.after {} steps).parse text = (Session.after {} steps').parse text) ∧
    ∀ (arguments arguments' : List Text) (o o' : CommandLine.Options),
      CommandLine.prepare arguments = .ok o → CommandLine.prepare arguments' = .ok o' →
      (∀ name ∈ (Assembly.Source.ofText text).mentioned,
        Constant.lastValue? (CommandLine.definitions arguments) name =
          Constant.lastValue? (CommandLine.definitions arguments') name) →
      Assembly.parse (Constant.evaluate? o.constants) (Assembly.Source.ofText text) =
        Assembly.parse (Constant.evaluate? o'.constants) (Assembly.Source.ofText text) := by
  constructor
  · intro steps steps' hsame
    apply Assembly.parse_evaluate?_congr
    intro name hname
    rw [Session.getElem?_constants_after, Session.getElem?_constants_after, hsame name hname]
  · intro arguments arguments' o o' ho ho' hsame
    apply Assembly.parse_evaluate?_congr
    intro name hname
    rw [CommandLine.getElem?_constants_of_prepare ho, CommandLine.getElem?_constants_of_prepare ho', hsame name hname]

theorem parse_eq_of_lastValue?_eq_overwritten :
    (∃ p, (Session.after {} [.predefine (ascii "N") 1, .predefine (ascii "SIZE") 8, .predefine (ascii "N") 2]).parse
        (ascii "SET A, $(SIZE * N)") = .ok p ∧ p.words = [0xc001] ∧
      (Session.after {} [.predefine (ascii "N") 2, .predefine (ascii "OTHER") 9, .predefine (ascii "SIZE") 8]).parse
        (ascii "SET A, $(SIZE * N)") = .ok p) ∧
    ∃ o o' : CommandLine.Options,
      CommandLine.prepare [ascii "-D=N=1", ascii "-c=-", ascii "-D", ascii "SIZE=0x8", ascii "-D=N=2"] = .ok o ∧
      CommandLine.prepare [ascii "-D=N=2", ascii "-D=SIZE=8", ascii "-v", ascii "-D=OTHER=9", ascii "-c=-"] = .ok o' ∧
      Assembly.parse (Constant.evaluate? o.constants) (Assembly.Source.ofText (ascii "SET A, $(SIZE * N)")) =
        Assembly.parse (Constant.evaluate? o'.constants) (Assembly.Source.ofText (ascii "SET A, $(SIZE * N)")) := by
  obtain ⟨hsessions, hcommands⟩ := parse_eq_of_lastValue?_eq (ascii "SET A, $(SIZE * N)")
  constructor
  · have hwords : ((Session.after {} [.predefine (ascii "N") 1, .predefine (ascii "SIZE") 8,
        .predefine (ascii "N") 2]).parse (ascii "SET A, $(SIZE * N)")).map Program.words = .ok [0xc001] := by
      decide +kernel
    obtain ⟨p, hp, hpwords⟩ := Assembly.map_eq_ok_iff.1 hwords
    refine ⟨p, hp, hpwords.symm, ?_⟩
    rw [← hp]
    exact hsessions _ _ (by decide +kernel)
  · have hfirst : (CommandLine.prepare [ascii "-D=N=1", ascii "-c=-", ascii "-D", ascii "SIZE=0x8",
        ascii "-D=N=2"]).map CommandLine.Options.compile = .ok (ascii "-") := by decide +kernel
    have hsecond : (CommandLine.prepare [ascii "-D=N=2", ascii "-D=SIZE=8", ascii "-v", ascii "-D=OTHER=9",
        ascii "-c=-"]).map CommandLine.Options.compile = .ok (ascii "-") := by decide +kernel
    obtain ⟨o, ho, -⟩ := Assembly.map_eq_ok_iff.1 hfirst
    obtain ⟨o', ho', -⟩ := Assembly.map_eq_ok_iff.1 hsecond
    exact ⟨o, o', ho, ho', hcommands _ _ o o' ho ho' (by decide +kernel)⟩

end Asm16
