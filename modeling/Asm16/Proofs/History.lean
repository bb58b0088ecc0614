import Asm16.Proofs.Binding
import Asm16.Proofs.Logging
import Asm16.Session
import Mathlib.Data.List.Induction

/-! The history of a session. Of all steps taken before, only two things matter to a later one: the last
value defined for each constant, and the last source that was assembled. A source that fails, a question
about the program and the verbose mode leave both as they are. -/

namespace Asm16.Session

def after (s : Session) (steps : List Step) : Session := (s.runFrom [] steps).1

theorem runFrom_eq (s : Session) (answers : List Answer) (steps : List Step) :
    s.runFrom answers steps = (s.after steps, answers.reverse ++ s.run steps) := by
  unfold after run
  induction steps generalizing s answers with
  | nil => simp [runFrom]
  | cons step rest ih =>
    have hrest := ih (s.step step).1 ((s.step step).2 :: answers)
    have hfirst := ih (s.step step).1 [(s.step step).2]
    rw [runFrom, runFrom, hrest, hfirst]
    simp

theorem after_nil (s : Session) : s.after [] = s := rfl

theorem after_cons (s : Session) (step : Step) (rest : List Step) :
    s.after (step :: rest) = (s.step step).1.after rest := by
  have hrun := runFrom_eq (s.step step).1 [(s.step step).2] rest
  unfold after at hrun ⊢
  rw [runFrom, hrun]

theorem run_cons (s : Session) (step : Step) (rest : List Step) :
    s.run (step :: rest) = (s.step step).2 :: (s.step step).1.run rest := by
  have hrun := runFrom_eq (s.step step).1 [(s.step step).2] rest
  unfold run at hrun ⊢
  rw [runFrom, hrun]
  rfl

theorem after_append (s : Session) (steps more : List Step) :
    s.after (steps ++ more) = (s.after steps).after more := by
  induction steps generalizing s with
  | nil => rfl
  | cons step rest ih => rw [List.cons_append, after_cons, after_cons, ih]

theorem after_concat (s : Session) (steps : List Step) (step : Step) :
    s.after (steps ++ [step]) = ((s.after steps).step step).1 := by
  rw [after_append, after_cons, after_nil]

theorem getElem?_run (s : Session) (steps : List Step) (step : Step) (rest : List Step) :
    (s.run (steps ++ step :: rest))[steps.length]? = some ((s.after steps).step step).2 := by
  induction steps generalizing s with
  | nil => rw [List.nil_append, run_cons, after_nil, List.length_nil, List.getElem?_cons_zero]
  | cons first steps ih =>
    rw [List.cons_append, run_cons, after_cons, List.length_cons, List.getElem?_cons_succ, ih]

namespace Step

def isPredefine : Step → Bool
  | predefine _ _ => true
  | _ => false

def value? (name : Text) : Step → Option Int
  | predefine defined value => if defined = name then some value else none
  | _ => none

def isQuery : Step → Bool
  | predefine _ _ | verbose _ | parse _ => false
  | words _ | entries _ | labels | find _ | codes _ | disassemble | dump => true

end Step

section
variable {s : Session} {source : Text}

/-- The result does not depend on the mode, so that it is the one without a log. -/
theorem result_parseLogged (s : Session) (source : Text) : (s.parseLogged source).result = s.parse source :=
  Assembly.result_parseLogged s.verbose (Constant.evaluate? s.constants) (Assembly.Source.ofText source)

theorem take_of_ok {p : Program} (h : s.parse source = .ok p) : (s.take source).1 = { s with program := p } := by
  simp only [take, result_parseLogged, h]

theorem take_of_error {e : SyntaxError} (h : s.parse source = .error e) : (s.take source).1 = s := by
  simp only [take, result_parseLogged, h]

theorem answer_take (s : Session) (source : Text) :
    (s.take source).2 =
      .parsed ((s.parse source).map fun p => (p.entries.length, p.words.length)) (s.log? (s.parseLogged source)) := by
  simp only [take, result_parseLogged]
  cases s.parse source with
  | ok p => rfl
  | error e => rfl

end

theorem step_of_isQuery {step : Step} (h : step.isQuery = true) (s : Session) :
    s.step step = (s, (({ program := s.program } : Session).step step).2) := by
  cases step with
  | predefine name value | verbose on | parse source => contradiction
  | words window | entries window | labels | find address | codes limit | disassemble | dump => rfl

theorem constants_take (s : Session) (source : Text) : (s.take source).1.constants = s.constants := by
  cases h : s.parse source with
  | ok p => rw [take_of_ok h]
  | error e => rw [take_of_error h]

theorem constants_step (s : Session) {step : Step} (h : step.isPredefine = false) :
    (s.step step).1.constants = s.constants := by
  cases step with
  | predefine name value => contradiction
  | parse source => exact constants_take s source
  | verbose on | words window | entries window | labels | find address | codes limit | disassemble | dump => rfl

def fresh (steps : List Step) : Session := after {} (steps.filter Step.isPredefine)

theorem fresh_concat (steps : List Step) (step : Step) :
    fresh (steps ++ [step]) = if step.isPredefine then ((fresh steps).step step).1 else fresh steps := by
  unfold fresh
  rw [List.filter_append, List.filter_cons, List.filter_nil]
  split
  · rw [after_concat]
  · rw [List.append_nil]

theorem fresh_eq (steps : List Step) : fresh steps = { constants := (after {} steps).constants } := by
  induction steps using List.reverseRecOn with
  | nil => rfl
  | append_singleton steps step ih =>
    rw [fresh_concat, after_concat, ih]
    split
    · cases step with
      | predefine name value => rfl
      | _ => contradiction
    · rename_i hother
      rw [constants_step _ (Bool.eq_false_iff.2 hother)]

theorem parse_after (steps : List Step) (source : Text) :
    (after {} steps).parse source = (fresh steps).parse source := by
  rw [fresh_eq]
  rfl

theorem getElem?_constants_fresh (steps : List Step) (name : Text) :
    (fresh steps).constants[name]? = steps.reverse.findSome? (Step.value? name) := by
  induction steps using List.reverseRecOn with
  | nil => rfl
  | append_singleton steps step ih =>
    rw [fresh_concat, List.reverse_concat, List.findSome?_cons, ← ih]
    cases step with
    | predefine defined value =>
      change ((fresh steps).constants.insert defined value)[name]? = _
      simp only [Std.TreeMap.getElem?_insert, Std.LawfulEqCmp.compare_eq_iff_eq, Step.value?]
      split <;> rfl
    | _ => rfl

/-- No source among later steps assembles with the constants that are defined when it is reached. -/
def NoneAssembles (before later : List Step) : Prop :=
  ∀ middle source rest, later = middle ++ .parse source :: rest →
    ∃ e, (fresh (before ++ middle)).parse source = .error e

/-- The program that the last source to assemble gave, or the empty one if none did. -/
def LastParsed (steps : List Step) (p : Program) : Prop :=
  (NoneAssembles [] steps ∧ p = .empty) ∨
    ∃ before source later, steps = before ++ .parse source :: later ∧
      (fresh before).parse source = .ok p ∧ NoneAssembles (before ++ [.parse source]) later

theorem noneAssembles_nil (before : List Step) : NoneAssembles before [] := by
  intro middle source rest h
  simp at h

theorem NoneAssembles.concat {before later : List Step} (h : NoneAssembles before later) {step : Step}
    (hstep : ∀ source, step = .parse source → ∃ e, (fresh (before ++ later)).parse source = .error e) :
    NoneAssembles before (later ++ [step]) := by
  intro middle source rest heq
  rcases List.eq_nil_or_concat rest with rfl | ⟨more, last, rfl⟩
  · obtain ⟨rfl, hlast⟩ := List.append_inj' heq rfl
    exact hstep source (List.cons.inj hlast).1
  · rw [List.concat_eq_append, ← List.cons_append, ← List.append_assoc] at heq
    obtain ⟨hlater, -⟩ := List.append_inj' heq rfl
    exact h middle source more hlater

theorem LastParsed.concat {steps : List Step} {p : Program} (h : LastParsed steps p) {step : Step}
    (hstep : ∀ source, step = .parse source → ∃ e, (fresh steps).parse source = .error e) :
    LastParsed (steps ++ [step]) p := by
  rcases h with ⟨hnone, hempty⟩ | ⟨before, source, later, rfl, hparse, hnone⟩
  · exact .inl ⟨hnone.concat hstep, hempty⟩
  · refine .inr ⟨before, source, later ++ [step], ?_, hparse, hnone.concat ?_⟩
    · rw [List.append_assoc, List.cons_append]
    · rwa [List.append_assoc, List.singleton_append]

theorem program_step (s : Session) {step : Step} (h : ∀ source, step ≠ .parse source) :
    (s.step step).1.program = s.program := by
  cases step with
  | parse source => exact absurd rfl (h source)
  | _ => rfl

/-- The program of a session is always the one that the last source to assemble gave. -/
theorem lastParsed_after (steps : List Step) : LastParsed steps (after {} steps).program := by
  -- The last step is taken off, since what it does depends on the constants of all steps before it.
  induction steps using List.reverseRecOn with
  | nil => exact .inl ⟨noneAssembles_nil [], rfl⟩
  | append_singleton steps step ih =>
    rw [after_concat]
    by_cases hparse : ∃ source, step = .parse source
    · obtain ⟨source, rfl⟩ := hparse
      cases hresult : (fresh steps).parse source with
      | ok p =>
        have htaken := take_of_ok ((parse_after steps source).trans hresult)
        change LastParsed _ ((after {} steps).take source).1.program
        rw [htaken]
        exact .inr ⟨steps, source, [], rfl, hresult, noneAssembles_nil _⟩
      | error e =>
        have htaken := take_of_error ((parse_after steps source).trans hresult)
        change LastParsed _ ((after {} steps).take source).1.program
        rw [htaken]
        apply ih.concat
        intro other hother
        obtain rfl := Step.parse.inj hother
        exact ⟨e, hresult⟩
    · rw [not_exists] at hparse
      rw [program_step _ hparse]
      exact ih.concat fun source hsource => absurd hsource (hparse source)

/-- A session after any steps. A source is then assembled as by a new session that knows only the constants
defined so far, each with its last value. If it assembles, its program takes the place of the one before and
nothing else changes; if it does not, nothing changes at all. The program is always the one that the last
source to assemble gave, and a question is answered from this program alone. -/
theorem run_history (before : List Step) :
    (∀ name, (fresh before).constants[name]? = before.reverse.findSome? (Step.value? name)) ∧
    (∀ source rest, ∃ log, (run {} (before ++ .parse source :: rest))[before.length]? =
      some (.parsed (((fresh before).parse source).map fun p => (p.entries.length, p.words.length)) log)) ∧
    (∀ source p, (fresh before).parse source = .ok p →
      after {} (before ++ [.parse source]) = { after {} before with program := p }) ∧
    (∀ source e, (fresh before).parse source = .error e →
      after {} (before ++ [.parse source]) = after {} before) ∧
    LastParsed before (after {} before).program ∧
    ∀ query : Step, query.isQuery = true →
      after {} (before ++ [query]) = after {} before ∧
      ∀ rest, (run {} (before ++ query :: rest))[before.length]? =
        some (({ program := (after {} before).program } : Session).step query).2 := by
  refine ⟨getElem?_constants_fresh before, ?_, ?_, ?_, lastParsed_after before, ?_⟩
  · intro source rest
    rw [getElem?_run, ← parse_after]
    exact ⟨_, congrArg some (answer_take (after {} before) source)⟩
  · intro source p hp
    rw [after_concat]
    exact take_of_ok ((parse_after before source).trans hp)
  · intro source e he
    rw [after_concat]
    exact take_of_error ((parse_after before source).trans he)
  · intro query hquery
    have hstep := step_of_isQuery hquery (after {} before)
    refine ⟨?_, fun rest => ?_⟩
    · rw [after_concat, hstep]
    · rw [getElem?_run, hstep]

def redefinition : List Step :=
  [.predefine (ascii "N") 1, .parse (ascii "DAT $(N)"), .predefine (ascii "N") 2, .verbose true,
    .parse (ascii "DAT $(N), nowhere"), .labels]

theorem run_history_redefinition :
    (fresh redefinition).constants[ascii "N"]? = some 2 ∧
    (∃ p, LastParsed redefinition p ∧ p.words = [1]) ∧
    (∃ p, (fresh redefinition).parse (ascii "DAT $(N)") = .ok p ∧ p.words = [2] ∧
      (after {} (redefinition ++ [.parse (ascii "DAT $(N)")])).program = p) ∧
    (fresh redefinition).parse (ascii "DAT") = .error ⟨1, ascii "DAT", .operandMissing⟩ ∧
    after {} (redefinition ++ [.parse (ascii "DAT")]) = after {} redefinition ∧
    (run {} (redefinition ++ [.words {}]))[6]? = some (.words [1]) := by
  obtain ⟨hconstants, -, hok, herror, hlast, hquery⟩ := run_history redefinition
  have hwords : (after {} redefinition).program.words = [1] := by decide +kernel
  have hassembles : ((fresh redefinition).parse (ascii "DAT $(N)")).map Program.words = .ok [2] := by
    decide +kernel
  have hfault : ((fresh redefinition).parse (ascii "DAT")).map Program.words =
      .error ⟨1, ascii "DAT", .operandMissing⟩ := by decide +kernel
  obtain ⟨p, hp, hpwords⟩ := Assembly.map_eq_ok_iff.1 hassembles
  have hfails := Assembly.map_eq_error_iff.1 hfault
  refine ⟨hconstants _, ⟨_, hlast, hwords⟩, ⟨p, hp, hpwords.symm, ?_⟩, hfails, herror _ _ hfails, ?_⟩
  · rw [hok _ p hp]
  · have hanswer := (hquery (.words {}) rfl).2 []
    rw [show redefinition.length = 6 from rfl] at hanswer
    rw [hanswer]
    exact congrArg (fun ws => some (Answer.words ws)) hwords

end Asm16.Session
