import Asm16.Constant.Eval

/-! Names in constant expressions. What an expression stands for depends only on the constants whose names are
written in it as identifiers: evaluation asks for no other names, and parsing makes up none. -/

namespace Asm16.Constant

mutual

theorem Expr.namesOnto_eq (after : List Text) : ∀ e : Expr, e.namesOnto after = e.namesOnto [] ++ after
  | .int _ | .float _ _ | .text _ | .name _ => rfl
  | .list items | .tuple items => namesOfOnto_eq after items
  | .unary _ e | .not e | .attribute e => namesOnto_eq after e
  | .binary _ l r | .compare _ l r | .member l r | .both l r | .either l r | .index l r => by
    rw [namesOnto, namesOnto, namesOnto_eq (r.namesOnto after) l, namesOnto_eq (r.namesOnto []) l,
      namesOnto_eq after r, List.append_assoc]
  | .conditional c t f => by
    rw [namesOnto, namesOnto, namesOnto_eq (t.namesOnto (f.namesOnto after)) c,
      namesOnto_eq (t.namesOnto (f.namesOnto [])) c, namesOnto_eq (f.namesOnto after) t,
      namesOnto_eq (f.namesOnto []) t, namesOnto_eq after f, List.append_assoc, List.append_assoc]
  | .call function arguments => by
    rw [namesOnto, namesOnto, namesOnto_eq (namesOfOnto after arguments) function,
      namesOnto_eq (namesOfOnto [] arguments) function, namesOfOnto_eq after arguments, List.append_assoc]

theorem Expr.namesOfOnto_eq (after : List Text) :
    ∀ es : List Expr, Expr.namesOfOnto after es = Expr.namesOfOnto [] es ++ after
  | [] => rfl
  | e :: rest => by
    rw [namesOfOnto, namesOfOnto, namesOnto_eq (namesOfOnto after rest) e, namesOnto_eq (namesOfOnto [] rest) e,
      namesOfOnto_eq after rest, List.append_assoc]

end

def Expr.Within (S : Text → Prop) (e : Expr) : Prop := ∀ name ∈ e.names, S name

namespace Expr
variable {S : Text → Prop}

theorem forall_namesOnto (e : Expr) (after : List Text) :
    (∀ name ∈ e.namesOnto after, S name) ↔ e.Within S ∧ ∀ name ∈ after, S name := by
  rw [namesOnto_eq, List.forall_mem_append]
  rfl

theorem forall_namesOfOnto {es : List Expr} :
    (∀ name ∈ Expr.namesOfOnto [] es, S name) ↔ ∀ e ∈ es, e.Within S := by
  induction es with
  | nil => simp [namesOfOnto]
  | cons e rest ih => rw [namesOfOnto, forall_namesOnto, ih, List.forall_mem_cons]

theorem within_name {t : Text} : (name t).Within S ↔ S t := List.forall_mem_singleton

theorem within_list {items : List Expr} : (list items).Within S ↔ ∀ e ∈ items, e.Within S := forall_namesOfOnto

theorem within_tuple {items : List Expr} : (tuple items).Within S ↔ ∀ e ∈ items, e.Within S := forall_namesOfOnto

theorem within_index {l r : Expr} : (index l r).Within S ↔ l.Within S ∧ r.Within S := forall_namesOnto l _

theorem within_call {function : Expr} {arguments : List Expr} :
    (call function arguments).Within S ↔ function.Within S ∧ ∀ e ∈ arguments, e.Within S :=
  (forall_namesOnto function _).trans (and_congr_right' forall_namesOfOnto)

theorem within_conditional {c t f : Expr} :
    (conditional c t f).Within S ↔ c.Within S ∧ t.Within S ∧ f.Within S :=
  (forall_namesOnto c _).trans (and_congr_right' (forall_namesOnto t _))

theorem within_apply (op : Operator) {l r : Expr} : (op.apply l r).Within S ↔ l.Within S ∧ r.Within S := by
  cases op <;> exact forall_namesOnto l _

end Expr

section
variable {constants others : Constants}

theorem lookup?_congr {name : Text} (h : constants[name]? = others[name]?) :
    lookup? constants name = lookup? others name := by
  rw [lookup?, lookup?, h]

mutual

theorem Expr.eval?_congr :
    ∀ e : Expr, e.Within (fun name => constants[name]? = others[name]?) → e.eval? constants = e.eval? others
  | .int _, _ | .float _ _, _ | .text _, _ | .attribute _, _ => by rw [eval?, eval?]
  | .name _, h => by rw [eval?, eval?, lookup?_congr (within_name.1 h)]
  | .list items, h | .tuple items, h => by rw [eval?, eval?, evalAll?_congr items (within_list.1 h)]
  | .unary _ e, h | .not e, h => by rw [eval?, eval?, eval?_congr e h]
  | .binary _ l r, h | .compare _ l r, h | .member l r, h | .both l r, h | .either l r, h | .index l r, h => by
    obtain ⟨hl, hr⟩ := within_index.1 h
    rw [eval?, eval?, eval?_congr l hl, eval?_congr r hr]
  | .conditional condition t f, h => by
    obtain ⟨hcondition, ht, hf⟩ := within_conditional.1 h
    rw [eval?, eval?, eval?_congr condition hcondition, eval?_congr t ht, eval?_congr f hf]
  | .call function arguments, h => by
    obtain ⟨hfunction, harguments⟩ := within_call.1 h
    rw [eval?, eval?, eval?_congr function hfunction, evalAll?_congr arguments harguments]

theorem Expr.evalAll?_congr : ∀ es : List Expr,
    (∀ e ∈ es, e.Within fun name => constants[name]? = others[name]?) →
    Expr.evalAll? constants es = Expr.evalAll? others es
  | [], _ => by rw [evalAll?, evalAll?]
  | e :: rest, h => by
    obtain ⟨he, hrest⟩ := List.forall_mem_cons.1 h
    rw [evalAll?, evalAll?, eval?_congr e he, evalAll?_congr rest hrest]

end

end

def Token.Within (S : Text → Prop) : Token → Prop
  | name t => S t
  | _ => True

def Token.AllWithin (S : Text → Prop) (ts : List Token) : Prop := ∀ t ∈ ts, t.Within S

theorem Token.AllWithin.head {S : Text → Prop} {t : Token} {ts : List Token} (h : AllWithin S (t :: ts)) :
    t.Within S := (List.forall_mem_cons.1 h).1

theorem Token.AllWithin.tail {S : Text → Prop} {t : Token} {ts : List Token} (h : AllWithin S (t :: ts)) :
    AllWithin S ts := (List.forall_mem_cons.1 h).2

/-- What was found in some tokens has a property, and the names after it are all of one kind. -/
def Yields {α : Type} (S : Text → Prop) (P : α → Prop) : Option (α × List Token) → Prop
  | some (found, rest) => P found ∧ Token.AllWithin S rest
  | none => True

theorem Yields.of_eq {α : Type} {S : Text → Prop} {P : α → Prop} {result : Option (α × List Token)} {found : α}
    {rest : List Token} (h : Yields S P result) (heq : result = some (found, rest)) :
    P found ∧ Token.AllWithin S rest := by
  subst heq
  exact h

theorem Token.AllWithin.of_next? {S : Text → Prop} {ts rest : List Token} {op : Operator}
    (hts : AllWithin S ts) (h : Operator.next? ts = some (op, rest)) : AllWithin S rest := by
  unfold Operator.next? at h
  split at h
  · obtain ⟨-, rfl⟩ := Prod.mk.inj (Option.some.inj h)
    exact hts.tail.tail
  · obtain ⟨_, -, heq⟩ := Option.map_eq_some_iff.1 h
    obtain ⟨-, rfl⟩ := Prod.mk.inj heq
    exact hts.tail
  · contradiction

structure ParsesWithin (S : Text → Prop) (fuel : Nat) : Prop where
  test : ∀ ts : List Token, Token.AllWithin S ts → Yields S (Expr.Within S) (parseTest fuel ts)
  level : ∀ (level : Nat) (ts : List Token), Token.AllWithin S ts →
    Yields S (Expr.Within S) (parseLevel fuel level ts)
  operators : ∀ (level : Nat) (alone : Bool) (left : Expr) (ts : List Token), left.Within S →
    Token.AllWithin S ts → Yields S (Expr.Within S) (parseOperators fuel level alone left ts)
  suffixed : ∀ ts : List Token, Token.AllWithin S ts → Yields S (Expr.Within S) (parseSuffixed fuel ts)
  suffixes : ∀ (e : Expr) (ts : List Token), e.Within S → Token.AllWithin S ts →
    Yields S (Expr.Within S) (parseSuffixes fuel e ts)
  primary : ∀ ts : List Token, Token.AllWithin S ts → Yields S (Expr.Within S) (parsePrimary fuel ts)
  expression : ∀ (trailing : Bool) (ts : List Token), Token.AllWithin S ts →
    Yields S (Expr.Within S) (parseExpression fuel trailing ts)
  more : ∀ (trailing : Bool) (items : List Expr) (ts : List Token), (∀ e ∈ items, e.Within S) →
    Token.AllWithin S ts → Yields S (fun es => ∀ e ∈ es, Expr.Within S e) (parseMore fuel trailing items ts)

namespace ParsesWithin
variable {S : Text → Prop} {fuel : Nat}

theorem zero (S : Text → Prop) : ParsesWithin S 0 := by
  constructor <;> intros <;> exact trivial

theorem test_succ (h : ParsesWithin S fuel) {ts : List Token} (hts : Token.AllWithin S ts) :
    Yields S (Expr.Within S) (parseTest (fuel + 1) ts) := by
  rw [parseTest]
  split
  · rename_i whenTrue rest heq
    obtain ⟨htrue, hrest⟩ := (h.level 0 ts hts).of_eq heq
    split
    · rename_i condition more heq
      obtain ⟨hcondition, hmore⟩ := (h.level 0 rest hrest.tail).of_eq heq
      split
      · rename_i whenFalse last heq
        obtain ⟨hfalse, hlast⟩ := (h.test more hmore.tail).of_eq heq
        exact ⟨Expr.within_conditional.2 ⟨hcondition, htrue, hfalse⟩, hlast⟩
      · exact trivial
    · exact trivial
  · exact h.level 0 ts hts

theorem level_succ (h : ParsesWithin S fuel) (level : Nat) {ts : List Token} (hts : Token.AllWithin S ts) :
    Yields S (Expr.Within S) (parseLevel (fuel + 1) level ts) := by
  unfold parseLevel
  split
  · rename_i rest
    split
    · split
      · rename_i e more heq
        obtain ⟨he, hmore⟩ := (h.level 2 rest hts.tail).of_eq heq
        exact h.operators level false (.not e) more he hmore
      · exact trivial
    · exact trivial
  · split
    · rename_i e rest heq
      obtain ⟨he, hrest⟩ := (h.suffixed ts hts).of_eq heq
      exact h.operators level false e rest he hrest
    · exact trivial

theorem operators_succ (h : ParsesWithin S fuel) (level : Nat) (alone : Bool) {left : Expr} {ts : List Token}
    (hleft : left.Within S) (hts : Token.AllWithin S ts) :
    Yields S (Expr.Within S) (parseOperators (fuel + 1) level alone left ts) := by
  rw [parseOperators]
  split
  · split
    · exact trivial
    · exact ⟨hleft, hts⟩
  · rename_i op rest hnext
    have hrest := hts.of_next? hnext
    split
    · exact ⟨hleft, hts⟩
    · split
      · exact trivial
      · split
        · rename_i right more heq
          obtain ⟨hright, hmore⟩ := (h.level (op.level + 1) rest hrest).of_eq heq
          exact h.operators _ _ _ _ ((Expr.within_apply op).2 ⟨hleft, hright⟩) hmore
        · exact trivial

theorem suffixed_succ (h : ParsesWithin S fuel) {ts : List Token} (hts : Token.AllWithin S ts) :
    Yields S (Expr.Within S) (parseSuffixed (fuel + 1) ts) := by
  rw [parseSuffixed]
  split
  · rename_i e rest heq
    obtain ⟨he, hrest⟩ := (h.primary ts hts).of_eq heq
    exact h.suffixes e rest he hrest
  · exact trivial

theorem suffixes_succ (h : ParsesWithin S fuel) {e : Expr} {ts : List Token} (he : e.Within S)
    (hts : Token.AllWithin S ts) : Yields S (Expr.Within S) (parseSuffixes (fuel + 1) e ts) := by
  unfold parseSuffixes
  split
  · rename_i rest
    exact h.suffixes (.attribute e) rest he hts.tail.tail
  · exact trivial
  · rename_i rest
    split
    · rename_i position more heq
      obtain ⟨hposition, hmore⟩ := (h.expression false rest hts.tail).of_eq heq
      exact h.suffixes _ more (Expr.within_index.2 ⟨he, hposition⟩) hmore.tail
    · exact trivial
  · rename_i rest
    exact h.suffixes _ rest (Expr.within_call.2 ⟨he, by simp⟩) hts.tail.tail
  · rename_i rest _
    split
    · rename_i argument more heq
      obtain ⟨hargument, hmore⟩ := (h.test rest hts.tail).of_eq heq
      split
      · rename_i arguments last heq
        obtain ⟨harguments, hlast⟩ := (h.more true [argument] more (by simpa using hargument) hmore).of_eq heq
        split
        · exact h.suffixes _ last (Expr.within_call.2 ⟨he, harguments⟩) hlast.tail
        · exact trivial
      · exact trivial
    · exact trivial
  · exact ⟨he, hts⟩

theorem primary_succ (h : ParsesWithin S fuel) {ts : List Token} (hts : Token.AllWithin S ts) :
    Yields S (Expr.Within S) (parsePrimary (fuel + 1) ts) := by
  unfold parsePrimary
  have hnone : ∀ name ∈ ([] : List Text), S name := by simp
  split
  · exact ⟨hnone, hts.tail⟩
  · exact ⟨hnone, hts.tail⟩
  · exact ⟨hnone, hts.tail⟩
  · exact ⟨Expr.within_name.2 hts.head, hts.tail⟩
  · exact ⟨hnone, hts.tail.tail⟩
  · rename_i rest _
    split
    · rename_i item more heq
      obtain ⟨hitem, hmore⟩ := (h.test rest hts.tail).of_eq heq
      split
      · rename_i items last heq
        obtain ⟨hitems, hlast⟩ := (h.more true [item] more (by simpa using hitem) hmore).of_eq heq
        exact ⟨Expr.within_list.2 hitems, hlast.tail⟩
      · exact trivial
    · exact trivial
  · exact ⟨hnone, hts.tail.tail⟩
  · rename_i rest _
    split
    · rename_i e more heq
      obtain ⟨he, hmore⟩ := (h.expression true rest hts.tail).of_eq heq
      exact ⟨he, hmore.tail⟩
    · exact trivial
  · rename_i s rest _ _ _ _
    split
    · rename_i op _
      split
      · rename_i e more heq
        obtain ⟨he, hmore⟩ := (h.suffixed rest hts.tail).of_eq heq
        exact ⟨he, hmore⟩
      · exact trivial
    · exact trivial
  · exact trivial

theorem expression_succ (h : ParsesWithin S fuel) (trailing : Bool) {ts : List Token}
    (hts : Token.AllWithin S ts) : Yields S (Expr.Within S) (parseExpression (fuel + 1) trailing ts) := by
  rw [parseExpression]
  split
  · rename_i e rest heq
    obtain ⟨he, hrest⟩ := (h.test ts hts).of_eq heq
    split
    · rename_i items more heq
      obtain ⟨hitems, hmore⟩ := (h.more trailing [e] _ (by simpa using he) hrest).of_eq heq
      exact ⟨Expr.within_tuple.2 hitems, hmore⟩
    · exact trivial
  · exact h.test ts hts

theorem more_succ (h : ParsesWithin S fuel) (trailing : Bool) {items : List Expr} {ts : List Token}
    (hitems : ∀ e ∈ items, e.Within S) (hts : Token.AllWithin S ts) :
    Yields S (fun es => ∀ e ∈ es, Expr.Within S e) (parseMore (fuel + 1) trailing items ts) := by
  have hreverse : ∀ e ∈ items.reverse, e.Within S := fun e he => hitems e (List.mem_reverse.1 he)
  unfold parseMore
  split
  · rename_i rest
    have hrest := hts.tail
    split
    · split
      · exact ⟨hreverse, hrest⟩
      · exact trivial
    · split
      · rename_i item more heq
        obtain ⟨hitem, hmore⟩ := (h.test rest hrest).of_eq heq
        exact h.more trailing (item :: items) more (List.forall_mem_cons.2 ⟨hitem, hitems⟩) hmore
      · exact trivial
  · exact ⟨hreverse, hts⟩

end ParsesWithin

theorem parsesWithin (S : Text → Prop) (fuel : Nat) : ParsesWithin S fuel := by
  -- The parsers call one another, each with less fuel, so all of them are followed together.
  induction fuel with
  | zero => exact .zero S
  | succ fuel ih =>
    exact {
      test := fun _ => ih.test_succ
      level := fun level _ => ih.level_succ level
      operators := fun level alone _ _ => ih.operators_succ level alone
      suffixed := fun _ => ih.suffixed_succ
      suffixes := fun _ _ => ih.suffixes_succ
      primary := fun _ => ih.primary_succ
      expression := fun trailing _ => ih.expression_succ trailing
      more := fun trailing _ _ => ih.more_succ trailing }

def Token.name? : Token → Option Text
  | name t => some t
  | _ => none

/-- What follows a string, from its opening quotes on. A quote behind a backslash does not close it. -/
def afterString (closing : List Char) : List Text.CodePoint → List Text.CodePoint
  | [] | [_] => []
  | c :: d :: rest =>
    if charOf c == '\\' then afterString closing rest
    else if ((c :: d :: rest).take closing.length).map charOf = closing then (d :: rest).drop (closing.length - 1)
    else afterString closing (d :: rest)

/-- Where a text goes on after a code point at which there is no token: after the string that is opened there, or
after the word that starts there, which is then taken for a name. -/
def passOver (c : Text.CodePoint) (rest : List Text.CodePoint) : Option Text × List Text.CodePoint :=
  match ((c :: rest).take 3).map charOf with
  | ['"', '"', '"'] | ['\'', '\'', '\''] => (none, afterString [charOf c, charOf c, charOf c] (rest.drop 2))
  | '"' :: _ | '\'' :: _ => (none, afterString [charOf c] rest)
  | _ =>
    let run := (c :: rest).span isNamePart
    if isNameStart c then (some (bytesOf run.1), run.2) else (none, rest)

/-- The identifiers in a text, whether or not all of it can be divided into tokens. -/
def identifiersFrom : Nat → Nat → List Text.CodePoint → List Text
  | 0, _, _ | _, _, [] => []
  | steps + 1, depth, c :: rest =>
    match scanNext (depth != 0) c rest with
    | .token t rest => t.name?.toList ++ identifiersFrom steps (depthAfter depth t) rest
    | .blank rest => identifiersFrom steps depth rest
    | .finish => []
    | .refused => (passOver c rest).1.toList ++ identifiersFrom steps depth (passOver c rest).2

def identifiers (source : Text) : List Text :=
  let cs := Text.codePoints source
  identifiersFrom cs.length 0 cs

theorem filterMap_name?_of_scanFrom {steps depth : Nat} {done ts : List Token} {cs : List Text.CodePoint}
    (h : scanFrom steps depth done cs = some ts) :
    ts.filterMap Token.name? = done.reverse.filterMap Token.name? ++ identifiersFrom steps depth cs := by
  fun_induction scanFrom steps depth done cs with
  | case1 steps depth done =>
    obtain rfl := Option.some.inj h
    cases steps <;> simp [identifiersFrom]
  | case2 => contradiction
  | case3 steps depth done c rest t after hnext ih =>
    rw [ih h, identifiersFrom, hnext, List.reverse_cons, List.filterMap_append, List.append_assoc]
    cases ht : t.name? <;> simp [ht]
  | case4 steps depth done c rest after hnext ih => rw [ih h, identifiersFrom, hnext]
  | case5 steps depth done c rest hnext =>
    obtain rfl := Option.some.inj h
    rw [identifiersFrom, hnext, List.append_nil]
  | case6 => contradiction

/-- Where the whole text can be divided into tokens, its identifiers are the names among them. -/
theorem filterMap_name?_of_tokens? {source : Text} {ts : List Token} (h : tokens? source = some ts) :
    ts.filterMap Token.name? = identifiers source :=
  filterMap_name?_of_scanFrom h

/-- A string with an escape is no token, but the names after it are identifiers still. -/
example : identifiers (ascii "ord(\"\\n\") + N + 'it\\'s M'") = [ascii "ord", ascii "N"] := by decide +kernel

theorem Token.allWithin_filterMap_name? (ts : List Token) : AllWithin (· ∈ ts.filterMap name?) ts := by
  intro t ht
  cases t with
  | name t => exact List.mem_filterMap.2 ⟨_, ht, rfl⟩
  | _ => exact trivial

theorem Expr.within_identifiers {source : Text} {e : Expr} (h : Expr.parse? source = some e) :
    e.Within (· ∈ identifiers source) := by
  unfold Expr.parse? at h
  split at h
  · rename_i ts hts
    unfold ofTokens? at h
    split at h
    · rename_i found hparse
      obtain rfl := Option.some.inj h
      rw [← filterMap_name?_of_tokens? hts]
      exact (((parsesWithin _ _).expression false ts (Token.allWithin_filterMap_name? ts)).of_eq hparse).1
    · contradiction
  · contradiction

/-- An expression has the same value wherever its identifiers have the same values. -/
theorem evaluate?_congr {constants others : Constants} {source : Text}
    (h : ∀ name ∈ identifiers source, constants[name]? = others[name]?) :
    evaluate? constants source = evaluate? others source := by
  cases hparse : Expr.parse? source with
  | none => simp only [evaluate?, hparse]
  | some e =>
    have hnames : e.Within fun name => constants[name]? = others[name]? :=
      fun name hname => h name (Expr.within_identifiers hparse name hname)
    have hknown : e.names.all (isKnown constants) = e.names.all (isKnown others) := by
      rw [Bool.eq_iff_iff, List.all_eq_true, List.all_eq_true]
      exact forall₂_congr fun name hname => by rw [isKnown, isKnown, lookup?_congr (hnames name hname)]
    simp only [evaluate?, hparse, hknown, Expr.eval?_congr e hnames]

end Asm16.Constant
