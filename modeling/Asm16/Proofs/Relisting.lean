import Asm16.Proofs.Insertion
import Asm16.Proofs.LineEnding

/-! A program laid out anew. Tokens joined by single spaces are again the tokens of the line that they make.
A program that is written out with one statement on a line, behind the labels that were declared since the
statement before it, therefore assembles to the same words at the same addresses. -/

namespace Asm16

/-! ### Tokens joined by spaces -/

namespace Token

/-- Behind a space the scanner is where it was at the start of the line. -/
theorem Lexed.exists_spaced_cons {parts tokens : List Text} (h : Lexed (Text.spaced parts) tokens) (first : Text) :
    ∃ rest, Text.spaced (first :: parts) = first ++ rest ∧ stops rest = true ∧ Lexed rest tokens := by
  cases parts with
  | nil => exact ⟨[], by simp [Text.spaced], rfl, h⟩
  | cons next more =>
    exact ⟨_, Text.spaced_cons_cons first next more, rfl, .blank (by decide) h⟩

theorem Lexed.spaced {t : Text} {tokens : List Text} (h : Lexed t tokens) :
    Lexed (Text.spaced tokens) tokens := by
  induction h with
  | nil => exact .nil
  | blank _ _ ih => exact ih
  | @separator b t tokens hb _ ih =>
    obtain ⟨rest, hrest, -, hlexed⟩ := ih.exists_spaced_cons [b]
    rw [hrest]
    exact .separator hb hlexed
  | @expression inner t tokens hcloses _ ih =>
    obtain ⟨rest, hrest, -, hlexed⟩ := ih.exists_spaced_cons (expressionStart ++ inner)
    rw [hrest]
    exact .expression hcloses hlexed
  | unclosed hopen =>
    rw [Text.spaced, List.intercalate_singleton]
    exact .unclosed hopen
  | @word w t tokens hne hrun _ _ ih =>
    obtain ⟨rest, hrest, hstops, hlexed⟩ := ih.exists_spaced_cons w
    rw [hrest]
    exact .word hne hrun hstops hlexed

theorem Lexed.exists_tail {t token : Text} {tokens : List Text} (h : Lexed t (token :: tokens)) :
    ∃ u, Lexed u tokens := by
  generalize hall : token :: tokens = all at h
  induction h with
  | nil => contradiction
  | blank _ _ ih => exact ih hall
  | separator _ hrest | expression _ hrest | word _ _ _ hrest =>
    obtain ⟨-, rfl⟩ := List.cons.inj hall
    exact ⟨_, hrest⟩
  | unclosed _ =>
    obtain ⟨-, rfl⟩ := List.cons.inj hall
    exact ⟨[], .nil⟩

theorem Lexed.exists_of_append {t : Text} {first tokens : List Text} (h : Lexed t (first ++ tokens)) :
    ∃ u, Lexed u tokens := by
  induction first generalizing t with
  | nil => exact ⟨t, h⟩
  | cons token first ih =>
    obtain ⟨u, hu⟩ := Lexed.exists_tail h
    exact ih hu

theorem Lexed.mem_of_mem {t : Text} {tokens : List Text} (h : Lexed t tokens) {token : Text}
    (htoken : token ∈ tokens) {b : UInt8} (hb : b ∈ token) : b ∈ t := by
  induction h with
  | nil => contradiction
  | blank _ _ ih => exact List.mem_cons_of_mem _ (ih htoken)
  | unclosed _ => rwa [List.mem_singleton.1 htoken] at hb
  | @separator c t tokens _ _ ih =>
    rcases List.mem_cons.1 htoken with rfl | htoken
    · exact List.mem_append_left t hb
    · exact List.mem_cons_of_mem c (ih htoken)
  | expression _ _ ih | word _ _ _ _ ih =>
    rcases List.mem_cons.1 htoken with rfl | htoken
    · exact List.mem_append_left _ hb
    · exact List.mem_append_right _ (ih htoken)

theorem mem_of_mem_ofLine {line token : Text} (htoken : token ∈ ofLine line) {b : UInt8} (hb : b ∈ token) :
    b ∈ line ∧ b ≠ Text.semicolon := by
  have hbody := (lexed_ofLine line).mem_of_mem htoken hb
  refine ⟨(List.takeWhile_subset _) hbody, ?_⟩
  simpa using List.mem_takeWhile_imp hbody

end Token

namespace Text

theorem mem_spaced {parts : List Text} {b : UInt8} (h : b ∈ spaced parts) :
    b = space ∨ ∃ p ∈ parts, b ∈ p := by
  induction parts with
  | nil => contradiction
  | cons p rest ih =>
    cases rest with
    | nil =>
      rw [spaced, List.intercalate_singleton] at h
      exact .inr ⟨p, List.mem_singleton_self p, h⟩
    | cons q more =>
      rw [spaced_cons_cons, List.mem_append, List.mem_cons] at h
      rcases h with hfirst | hspace | hrest
      · exact .inr ⟨p, List.mem_cons_self, hfirst⟩
      · exact .inl hspace
      · rcases ih hrest with hspace | ⟨r, hr, hb⟩
        · exact .inl hspace
        · exact .inr ⟨r, List.mem_cons_of_mem p hr, hb⟩

theorem notMem_spaced {parts : List Text} {b : UInt8} (hb : b ≠ space) (h : ∀ p ∈ parts, b ∉ p) :
    b ∉ spaced parts := by
  intro hmem
  rcases mem_spaced hmem with hspace | ⟨p, hp, hbyte⟩
  · exact hb hspace
  · exact h p hp hbyte

end Text

theorem Token.ofLine_spaced {parts tokens : List Text} (h : Lexed (Text.spaced parts) tokens)
    (hcomment : ∀ p ∈ parts, Text.semicolon ∉ p) : ofLine (Text.spaced parts) = tokens := by
  rw [ofLine, Text.before_of_notMem (Text.notMem_spaced (by decide) hcomment)]
  exact tokensFrom_eq_iff.2 h

theorem Token.ofLine_spaced_ofLine (line : Text) : ofLine (Text.spaced (ofLine line)) = ofLine line :=
  ofLine_spaced (lexed_ofLine line).spaced fun _ htoken hmem => (mem_of_mem_ofLine htoken hmem).2 rfl

/-! ### The ends of lines -/

namespace Text

def EndsSolid (t : Text) : Prop := ∃ b, t.getLast? = some b ∧ Token.isBlank b = false

theorem EndsSolid.ne_nil {t : Text} (h : EndsSolid t) : t ≠ [] := by
  obtain ⟨b, hb, -⟩ := h
  rintro rfl
  contradiction

theorem EndsSolid.chomp_eq {t : Text} (h : EndsSolid t) : chomp t = t := by
  obtain ⟨b, hlast, hb⟩ := h
  unfold chomp
  rw [hlast, if_neg]
  rintro ⟨rfl⟩
  exact absurd hb (by decide)

theorem EndsSolid.append {t : Text} (h : EndsSolid t) (u : Text) : EndsSolid (u ++ t) := by
  obtain ⟨b, hlast, hb⟩ := h
  exact ⟨b, by rw [List.getLast?_append, hlast, Option.some_or], hb⟩

theorem EndsSolid.spaced {parts : List Text} (hne : parts ≠ []) (h : ∀ p ∈ parts, EndsSolid p) :
    EndsSolid (spaced parts) := by
  induction parts with
  | nil => contradiction
  | cons p rest ih =>
    obtain ⟨hp, hrest⟩ := List.forall_mem_cons.1 h
    cases rest with
    | nil => rwa [Text.spaced, List.intercalate_singleton]
    | cons q more =>
      rw [spaced_cons_cons]
      exact ((ih (List.cons_ne_nil q more) hrest).append [space]).append p

theorem newline_notMem_of_mem_lines {t line : Text} (ht : (lines t).overlong = false)
    (hline : line ∈ (lines t).lines) : newline ∉ line := by
  rw [lines_of_short (short_of_read ht)] at hline
  obtain ⟨piece, hpiece, rfl⟩ := List.mem_map.1 hline
  have hmem : piece ∈ pieces t := by
    rw [eq_delivered_append (pieces_ne_nil t)]
    exact List.mem_append_left _ hpiece
  intro hnewline
  apply newline_notMem_of_mem_pieces hmem
  unfold chomp at hnewline
  split at hnewline
  · exact List.dropLast_subset piece hnewline
  · exact hnewline

end Text

namespace Token

theorem Plain.endsSolid {w : Text} (h : Plain w) : Text.EndsSolid w := by
  have hlast := List.getLast?_eq_some_getLast h.ne_nil
  exact ⟨_, hlast, (isPlain_iff.1 (List.all_eq_true.1 h.plain _ (List.mem_of_getLast? hlast))).2.1⟩

theorem getLast?_of_closes {depth : Nat} {inner : Text} (h : closes depth inner = true) :
    inner.getLast? = some closeParen := by
  fun_induction closes depth inner with
  | case1 => contradiction
  | case3 depth rest =>
    obtain rfl := List.isEmpty_iff.1 h
    rfl
  | case2 depth rest ih | case4 depth rest _ _ ih | case5 depth b rest _ _ ih =>
    rw [List.getLast?_cons, ih h]
    rfl

/-- Only an expression that is not closed can end in a blank. -/
theorem Lexed.endsSolid {t : Text} {tokens : List Text} (h : Lexed t tokens) {token : Text}
    (htoken : token ∈ tokens) (hclosed : isUnclosed token = false) : Text.EndsSolid token := by
  induction h with
  | nil => contradiction
  | blank _ _ ih => exact ih htoken
  | @separator b t tokens hb _ ih =>
    rcases List.mem_cons.1 htoken with rfl | htoken
    · exact ⟨b, rfl, isBlank_of_isSeparator hb⟩
    · exact ih htoken
  | @expression inner t tokens hcloses _ ih =>
    rcases List.mem_cons.1 htoken with rfl | htoken
    · exact Text.EndsSolid.append ⟨closeParen, getLast?_of_closes hcloses, by decide⟩ expressionStart
    · exact ih htoken
  | @unclosed inner hopen =>
    rw [List.mem_singleton.1 htoken, isUnclosed_expressionStart, hopen] at hclosed
    contradiction
  | @word w t tokens hne hrun _ _ ih =>
    rcases List.mem_cons.1 htoken with rfl | htoken
    · have hlast := List.getLast?_eq_some_getLast hne
      exact ⟨_, hlast, isBlank_eq_false_of_isRun hrun (List.mem_of_getLast? hlast)⟩
    · exact ih htoken

end Token

namespace Grammar
open Assembly

section
variable {evaluate : Evaluator}

theorem getLast?_of_numberWord {token : Text} {word : UInt16} (h : numberWord evaluate token = .ok word)
    (hstart : Token.expressionStart.isPrefixOf token = true) : token.getLast? = some Token.closeParen := by
  unfold numberWord at h
  rw [if_pos hstart] at h
  obtain ⟨inner, rfl⟩ := List.isPrefixOf_iff_prefix.1 hstart
  unfold expressionWord at h
  simp only at h
  split at h
  · rename_i hlast
    rw [List.getLast?_append]
    change inner.getLast? = some Token.closeParen at hlast
    rw [hlast, Option.some_or]
  · contradiction

inductive Part (evaluate : Evaluator) (token : Text) : Prop
  | single {b : UInt8} (htoken : token = [b])
  | name (h : isReserved token = true)
  | value {a : Atom} (h : a.Spelt evaluate token)

theorem Atom.SpeltFreely.part {tokens : List Text} {a : Atom} (h : a.SpeltFreely evaluate tokens) :
    ∀ token ∈ tokens, Part evaluate token := by
  cases h with
  | atom ha => exact List.forall_mem_singleton.2 (.value ha)
  | negative hword =>
    exact List.forall_mem_cons.2 ⟨.single rfl, List.forall_mem_singleton.2 (.value (.number hword))⟩

theorem Term.Spelt.part {tokens : List Text} {t : Term} (h : t.Spelt evaluate tokens) :
    ∀ token ∈ tokens, Part evaluate token := by
  cases h with
  | register hreg => exact List.forall_mem_singleton.2 (.name (isReserved_of_register hreg))
  | special hsp => exact List.forall_mem_singleton.2 (.name (isReserved_of_special hsp))
  | bare ha => exact ha.part
  | indirect hreg =>
    simp only [List.forall_mem_cons, List.not_mem_nil, false_imp_iff, forall_const, and_true]
    exact ⟨.single rfl, .name (isReserved_of_register hreg), .single rfl⟩
  | memory ha =>
    simp only [List.forall_mem_cons, List.not_mem_nil, false_imp_iff, forall_const, and_true]
    exact ⟨.single rfl, .value ha, .single rfl⟩
  | offsetFirst ha hreg =>
    simp only [List.forall_mem_cons, List.not_mem_nil, false_imp_iff, forall_const, and_true]
    exact ⟨.single rfl, .value ha, .single rfl, .name (isReserved_of_register hreg), .single rfl⟩
  | registerFirst ha hreg =>
    simp only [List.forall_mem_cons, List.not_mem_nil, false_imp_iff, forall_const, and_true]
    exact ⟨.single rfl, .name (isReserved_of_register hreg), .single rfl, .value ha, .single rfl⟩

theorem Phrase.Spelt.part {mnemonic : Text} {operands : List Text} {p : Phrase}
    (h : p.Spelt evaluate (mnemonic :: operands)) : ∀ token ∈ operands, Part evaluate token := by
  cases h with
  | data _ _ hvalues => exact forall_mem_intercalate hvalues (.single rfl) Atom.SpeltFreely.part
  | nonBasic _ ha => exact ha.part
  | basic _ ha hb => exact List.forall_mem_append.2 ⟨ha.part, List.forall_mem_cons.2 ⟨.single rfl, hb.part⟩⟩

/-- An expression that is not closed can have a value, but only if it ends in a parenthesis. -/
theorem Part.endsSolid {token : Text} (h : Part evaluate token) (hopen : Token.isUnclosed token = true) :
    Text.EndsSolid token := by
  have hnot : ∀ {w : Text}, Token.Plain w → Token.isUnclosed w = false := fun h => Token.isUnclosed_of_isRun h.isRun
  cases h with
  | single htoken =>
    rw [htoken, Token.isUnclosed_singleton] at hopen
    contradiction
  | name hreserved =>
    rw [hnot (plain_of_isReserved hreserved)] at hopen
    contradiction
  | value ha =>
    cases ha with
    | number hword =>
      have hstart := (Bool.and_eq_true_iff.1 hopen).1
      exact ⟨Token.closeParen, getLast?_of_numberWord hword hstart, by decide⟩
    | label hlabel _ =>
      rw [hnot (plain_of_isLabel hlabel)] at hopen
      contradiction

theorem Phrase.Spelt.endsSolid {t : Text} {tokens : List Text} {p : Phrase} (h : p.Spelt evaluate tokens)
    (hlexed : Token.Lexed t tokens) : ∀ token ∈ tokens, Text.EndsSolid token := by
  intro token htoken
  by_cases hopen : Token.isUnclosed token = true
  · cases tokens with
    | nil => contradiction
    | cons mnemonic operands =>
      rcases List.mem_cons.1 htoken with rfl | htoken
      · exact (plain_mnemonic h).endsSolid
      · exact (h.part token htoken).endsSolid hopen
  · exact hlexed.endsSolid htoken (Bool.eq_false_iff.2 hopen)

end
end Grammar

namespace Assembly

/-! ### Clauses -/

/-- A statement with the labels declared in front of it, or labels alone. -/
structure Clause where
  labels : List Text
  tokens : List Text
  deriving DecidableEq, Repr

namespace Clause

def row (c : Clause) : List Text := declaring c.labels ++ c.tokens

/-- The parts of a clause joined by single spaces, with every label right behind its colon. -/
def line (c : Clause) : Text := Text.spaced (c.labels.map (Layout.colonToken ++ ·) ++ c.tokens)

end Clause

/-- The clauses of a program, given its labels with the numbers of the lines that declare them: each statement
takes the labels up to its own line, and those that are left at the end stand alone. -/
def clauses (labels : List (Nat × Text)) : List Program.Entry → List Clause
  | [] => if labels = [] then [] else [⟨labels.map Prod.snd, []⟩]
  | e :: rest =>
    ⟨(labels.filter fun d => d.1 ≤ e.line).map Prod.snd, e.tokens⟩ ::
      clauses (labels.filter fun d => ¬ d.1 ≤ e.line) rest

def relisted (text : Text) (p : Program) : List Text :=
  (clauses (declarations (Source.ofText text).lines) p.entries).map Clause.line

/-! ### Labels put in front of statements -/

def rowLabels (number : Nat) (rows : List (List Text)) : List (Nat × Text) :=
  (rows.zipIdx number).flatMap fun (row, n) => (lineLabels row).map (n, ·)

theorem declarations_eq_rowLabels (lines : List Text) :
    declarations lines = rowLabels 1 (lines.map Token.ofLine) := by
  rw [declarations, rowLabels, List.zipIdx_map, List.flatMap_map]
  rfl

theorem rowLabels_cons (number : Nat) (row : List Text) (rest : List (List Text)) :
    rowLabels number (row :: rest) = (lineLabels row).map (number, ·) ++ rowLabels (number + 1) rest := by
  rw [rowLabels, List.zipIdx_cons, List.flatMap_cons]
  rfl

theorem le_of_mem_rowLabels {number : Nat} {rows : List (List Text)} {d : Nat × Text}
    (h : d ∈ rowLabels number rows) : number ≤ d.1 := by
  obtain ⟨⟨row, n⟩, hmem, hlabel⟩ := List.mem_flatMap.1 h
  obtain ⟨label, -, rfl⟩ := List.mem_map.1 hlabel
  exact (List.mem_zipIdx hmem).1

theorem map_snd_append (pending : List (Nat × Text)) (number : Nat) (labels : List Text) :
    (pending ++ labels.map (number, ·)).map Prod.snd = pending.map Prod.snd ++ labels := by
  rw [List.map_append, List.map_map]
  exact congrArg (pending.map Prod.snd ++ ·) (List.map_id _)

theorem forall_lt_append {pending : List (Nat × Text)} {number : Nat} (h : ∀ d ∈ pending, d.1 < number)
    (labels : List Text) : ∀ d ∈ pending ++ labels.map (number, ·), d.1 < number + 1 := by
  refine List.forall_mem_append.2 ⟨fun d hd => Nat.lt_succ_of_lt (h d hd), ?_⟩
  exact List.forall_mem_map.2 fun label _ => Nat.lt_succ_self number

theorem clauses_cons {pending later : List (Nat × Text)} {e : Program.Entry} (rest : List Program.Entry)
    (hpending : ∀ d ∈ pending, (d.1 : Int) ≤ e.line) (hlater : ∀ d ∈ later, e.line < d.1) :
    clauses (pending ++ later) (e :: rest) = ⟨pending.map Prod.snd, e.tokens⟩ :: clauses later rest := by
  have hkept : pending.filter (fun d => (d.1 : Int) ≤ e.line) = pending :=
    List.filter_eq_self.2 fun d hd => decide_eq_true (hpending d hd)
  have hdropped : pending.filter (fun d => ¬ (d.1 : Int) ≤ e.line) = [] :=
    List.filter_eq_nil_iff.2 fun d hd => by simpa using hpending d hd
  have hnone : later.filter (fun d => (d.1 : Int) ≤ e.line) = [] :=
    List.filter_eq_nil_iff.2 fun d hd => by simpa using hlater d hd
  have hall : later.filter (fun d => ¬ (d.1 : Int) ≤ e.line) = later :=
    List.filter_eq_self.2 fun d hd => by simpa using hlater d hd
  rw [clauses, List.filter_append, List.filter_append, hkept, hdropped, hnone, hall, List.append_nil,
    List.nil_append]

section
variable {evaluate : Evaluator} {final : Symbols}

theorem Places.append {address : Nat} {known labels more : List Text} (h : Places final address known labels)
    (hmore : Places final address (known ++ labels) more) : Places final address known (labels ++ more) where
  valid := List.forall_mem_append.2 ⟨h.valid, hmore.valid⟩
  nodup := by
    refine List.nodup_append.2 ⟨h.nodup, hmore.nodup, ?_⟩
    rintro label hlabel _ hnext rfl
    exact hmore.fresh label hnext (List.mem_append_right known hlabel)
  fresh := List.forall_mem_append.2
    ⟨h.fresh, fun label hlabel hknown => hmore.fresh label hlabel (List.mem_append_left labels hknown)⟩
  fits := by
    intro hne
    by_cases hlabels : labels = []
    · rw [hlabels, List.nil_append] at hne
      exact hmore.fits hne
    · exact h.fits hlabels
  address_eq := List.forall_mem_append.2 ⟨h.address_eq, hmore.address_eq⟩

theorem Places.nil (final : Symbols) (address : Nat) (known : List Text) : Places final address known [] where
  valid := by simp
  nodup := List.nodup_nil
  fresh := by simp
  fits := by simp
  address_eq := by simp

/-- The pass over the clauses of a program. The labels that are `pending` were declared on lines before, and no
statement has followed them yet. -/
theorem OnePass.clauses {number address : Nat} {known : List Text} {rows : List (List Text)}
    {entries : List Program.Entry} (h : OnePass evaluate final number address known rows entries)
    {before : List Text} {pending : List (Nat × Text)} (hpending : ∀ d ∈ pending, d.1 < number)
    (hknown : known = before ++ pending.map Prod.snd) (hplaces : Places final address before (pending.map Prod.snd))
    (start : Nat) :
    OnePass evaluate final start address before
        ((Assembly.clauses (pending ++ rowLabels number rows) entries).map Clause.row)
        (entries.mapIdx fun i e => { e with line := (start + i : Nat) }) ∧
      ((Assembly.clauses (pending ++ rowLabels number rows) entries).map Clause.row).flatMap lineLabels =
        pending.map Prod.snd ++ rows.flatMap lineLabels := by
  induction h generalizing before pending start with
  | nil number address known =>
    obtain ⟨hlabels, hnone⟩ := parts_declaring (pending.map Prod.snd)
    have hempty : pending ++ rowLabels number [] = pending := List.append_nil pending
    by_cases hpending' : pending = []
    · rw [hempty, hpending']
      exact ⟨.nil start address before, rfl⟩
    · have hclauses : Assembly.clauses pending [] = [⟨pending.map Prod.snd, []⟩] := if_neg hpending'
      rw [hempty, hclauses, List.map_singleton, Clause.row, List.append_nil]
      rw [← hlabels] at hplaces
      refine ⟨.labels hplaces hnone (.nil _ _ _), ?_⟩
      rw [List.flatMap_singleton, hlabels, List.flatMap_nil, List.append_nil]
  | @labels number address known row rest entries hrow hnone _ ih =>
    subst hknown
    have hmore := map_snd_append pending number (lineLabels row)
    rw [rowLabels_cons, ← List.append_assoc, List.flatMap_cons, ← List.append_assoc, ← hmore]
    apply ih (forall_lt_append hpending (lineLabels row))
    · rw [hmore, List.append_assoc]
    · rw [hmore]
      exact hplaces.append hrow
  | @statement number address known row rest entries p words hrow hspelt hwords hfits _ ih =>
    subst hknown
    have hmore := map_snd_append pending number (lineLabels row)
    have hclauses := clauses_cons (e := ⟨number, address, lineStatement row, words⟩) entries
      (fun d hd => Int.ofNat_le.2 (Nat.le_of_lt_succ (forall_lt_append hpending (lineLabels row) d hd)))
      (fun d (hd : d ∈ rowLabels (number + 1) rest) => Int.ofNat_lt.2 (le_of_mem_rowLabels hd))
    rw [rowLabels_cons, ← List.append_assoc, hclauses, hmore, List.map_cons, List.flatMap_cons, List.flatMap_cons,
      Clause.row, (parts_declaring_append hspelt _).1, List.append_assoc, List.mapIdx_cons]
    rw [List.append_assoc] at hwords ih
    -- Behind the statement nothing is pending, and all labels so far are known.
    obtain ⟨hpass, hrest⟩ := @ih _ [] (by simp) (List.append_nil _).symm (Places.nil final _ _) (start + 1)
    rw [List.nil_append] at hpass hrest
    refine ⟨.declaring_append (hplaces.append hrow) hspelt hwords hfits ?_, ?_⟩
    · simpa only [Nat.add_assoc, Nat.add_comm 1] using hpass
    · rw [hrest]
      rfl

/-! ### Clauses as lines -/

theorem Clause.lexed_line (c : Clause) (hlabels : ∀ label ∈ c.labels, isLabel label = true)
    (htokens : Token.Lexed (Text.spaced c.tokens) c.tokens) : Token.Lexed c.line c.row := by
  obtain ⟨labels, tokens⟩ := c
  unfold line row
  induction labels with
  | nil => exact htokens
  | cons label rest ih =>
    obtain ⟨hlabel, hrest⟩ := List.forall_mem_cons.1 hlabels
    have hplain := plain_of_isLabel hlabel
    obtain ⟨after, hafter, hstops, hlexed⟩ := (ih hrest htokens).exists_spaced_cons (Layout.colonToken ++ label)
    rw [List.map_cons, List.cons_append, hafter]
    exact .separator (by decide) (.word hplain.ne_nil hplain.isRun hstops hlexed)

structure Clause.Sound (c : Clause) : Prop where
  labels : ∀ label ∈ c.labels, isLabel label = true
  lexed : ∃ t, Token.Lexed t c.tokens
  inline : ∀ token ∈ c.tokens, Text.newline ∉ token ∧ Text.semicolon ∉ token
  solid : ∀ token ∈ c.tokens, Text.EndsSolid token
  ne_nil : c.row ≠ []

theorem Clause.Sound.parts {c : Clause} (h : c.Sound) :
    ∀ part ∈ c.labels.map (Layout.colonToken ++ ·) ++ c.tokens,
      Text.newline ∉ part ∧ Text.semicolon ∉ part ∧ Text.EndsSolid part := by
  refine List.forall_mem_append.2 ⟨List.forall_mem_map.2 fun label hlabel => ?_, fun token htoken => ?_⟩
  · have hplain := plain_of_isLabel (h.labels label hlabel)
    have hbytes : ∀ b ∈ label, b ≠ Text.newline ∧ b ≠ Text.semicolon := by
      intro b hb
      obtain ⟨-, -, -, hsemicolon, hnewline⟩ := Token.isPlain_iff.1 (List.all_eq_true.1 hplain.plain b hb)
      exact ⟨hnewline, hsemicolon⟩
    refine ⟨?_, ?_, hplain.endsSolid.append _⟩
    · simpa [Layout.colonToken] using ⟨by decide, fun hmem => (hbytes _ hmem).1 rfl⟩
    · simpa [Layout.colonToken] using ⟨by decide, fun hmem => (hbytes _ hmem).2 rfl⟩
  · obtain ⟨hnewline, hsemicolon⟩ := h.inline token htoken
    exact ⟨hnewline, hsemicolon, h.solid token htoken⟩

theorem Clause.Sound.line {c : Clause} (h : c.Sound) :
    Token.ofLine c.line = c.row ∧ Text.EndsSolid c.line ∧ Text.newline ∉ c.line := by
  have hparts := h.parts
  obtain ⟨t, ht⟩ := h.lexed
  refine ⟨?_, ?_, ?_⟩
  · exact Token.ofLine_spaced (c.lexed_line h.labels ht.spaced) fun part hpart => (hparts part hpart).2.1
  · refine Text.EndsSolid.spaced ?_ fun part hpart => (hparts part hpart).2.2
    intro hempty
    obtain ⟨hlabels, htokens⟩ := List.append_eq_nil_iff.1 hempty
    apply h.ne_nil
    rw [Clause.row, List.map_eq_nil_iff.1 hlabels, htokens]
    rfl
  · exact Text.notMem_spaced (by decide) fun part hpart => (hparts part hpart).1

theorem OnePass.exists_spelt {number address : Nat} {known : List Text} {rows : List (List Text)}
    {entries : List Program.Entry} (h : OnePass evaluate final number address known rows entries)
    {e : Program.Entry} (he : e ∈ entries) :
    ∃ row ∈ rows, e.tokens = lineStatement row ∧ ∃ p : Grammar.Phrase, p.Spelt evaluate e.tokens := by
  induction h with
  | nil => contradiction
  | labels _ _ _ ih =>
    obtain ⟨row, hrow, hspelt⟩ := ih he
    exact ⟨row, List.mem_cons_of_mem _ hrow, hspelt⟩
  | @statement _ _ _ row _ _ p _ _ hspelt _ _ _ ih =>
    rcases List.mem_cons.1 he with rfl | he
    · exact ⟨row, List.mem_cons_self, rfl, p, hspelt⟩
    · obtain ⟨row, hrow, hspelt⟩ := ih he
      exact ⟨row, List.mem_cons_of_mem _ hrow, hspelt⟩

theorem mem_clauses {labels : List (Nat × Text)} {entries : List Program.Entry} {c : Clause}
    (h : c ∈ clauses labels entries) :
    (∀ label ∈ c.labels, ∃ number, (number, label) ∈ labels) ∧
      ((c.tokens = [] ∧ c.labels ≠ []) ∨ ∃ e ∈ entries, c.tokens = e.tokens) := by
  fun_induction clauses labels entries with
  | case1 => contradiction
  | case2 labels hne =>
    obtain rfl := List.mem_singleton.1 h
    refine ⟨fun label hlabel => ?_, .inl ⟨rfl, by simpa using hne⟩⟩
    obtain ⟨d, hd, rfl⟩ := List.mem_map.1 hlabel
    exact ⟨d.1, hd⟩
  | case3 labels e rest ih =>
    rcases List.mem_cons.1 h with rfl | h
    · refine ⟨fun label hlabel => ?_, .inr ⟨e, List.mem_cons_self, rfl⟩⟩
      obtain ⟨d, hd, rfl⟩ := List.mem_map.1 hlabel
      exact ⟨d.1, (List.mem_filter.1 hd).1⟩
    · obtain ⟨hlabels, htokens⟩ := ih h
      refine ⟨fun label hlabel => ?_,
        htokens.imp_right fun ⟨e, he, heq⟩ => ⟨e, List.mem_cons_of_mem _ he, heq⟩⟩
      obtain ⟨number, hnumber⟩ := hlabels label hlabel
      exact ⟨number, (List.mem_filter.1 hnumber).1⟩

theorem sound_of_mem_clauses {text : Text} {p : Program} (hparse : parse evaluate (Source.ofText text) = .ok p)
    {c : Clause} (hc : c ∈ clauses (declarations (Source.ofText text).lines) p.entries) : c.Sound := by
  have hpass := (assembles_of_parse hparse).pass
  obtain ⟨hlabels, htokens⟩ := mem_clauses hc
  have hvalid : ∀ label ∈ c.labels, isLabel label = true := by
    intro label hlabel
    obtain ⟨number, hnumber⟩ := hlabels label hlabel
    obtain ⟨i, line, -, hline, hmem⟩ := mem_declarations_iff.1 hnumber
    have hrow := List.mem_map_of_mem (f := Token.ofLine) (List.mem_of_getElem? hline)
    exact ((hpass.mem_of_mem hrow).1 label hmem).1
  rcases htokens with ⟨hnone, hne⟩ | ⟨e, he, heq⟩
  · refine ⟨hvalid, ⟨[], hnone ▸ .nil⟩, by simp [hnone], by simp [hnone], ?_⟩
    obtain ⟨label, rest, hcons⟩ := List.exists_cons_of_ne_nil hne
    rw [Clause.row, hcons]
    simp [declaring]
  · obtain ⟨row, hrow, hstatement, phrase, hspelt⟩ := hpass.exists_spelt he
    obtain ⟨line, hline, rfl⟩ := List.mem_map.1 hrow
    rw [← heq] at hstatement hspelt
    have hsplit := declaring_append_lineStatement (Token.ofLine line)
    rw [← hstatement] at hsplit
    have hlexed := Token.lexed_ofLine line
    rw [← hsplit] at hlexed
    obtain ⟨t, ht⟩ := hlexed.exists_of_append
    -- The tokens stand in a line of the source, so they hold neither a newline nor a semicolon.
    have hbytes : ∀ token ∈ c.tokens, ∀ b ∈ token, b ∈ line ∧ b ≠ Text.semicolon := by
      intro token htoken b hb
      refine Token.mem_of_mem_ofLine ?_ hb
      rw [← hsplit]
      exact List.mem_append_right _ htoken
    have hnewline := Text.newline_notMem_of_mem_lines (overlong_eq_false_of_parse hparse) hline
    refine ⟨hvalid, ⟨t, ht⟩, fun token htoken => ⟨?_, ?_⟩, hspelt.endsSolid ht, ?_⟩
    · exact fun hmem => hnewline (hbytes token htoken _ hmem).1
    · exact fun hmem => (hbytes token htoken _ hmem).2 rfl
    · intro hempty
      rw [(List.append_eq_nil_iff.1 hempty).2] at hspelt
      cases hspelt

theorem exists_parse_relisted {text : Text} {p : Program} (hparse : parse evaluate (Source.ofText text) = .ok p)
    (hshort : ∀ line ∈ relisted text p, line.length < Text.lineLimit) :
    ∃ q, parse evaluate (Source.ofText (Text.stacked (relisted text p))) = .ok q ∧
      (q.entries = p.entries.mapIdx fun i e => { e with line := (1 + i : Nat) }) ∧
      ∀ label : Text, q.symbols[label]? = p.symbols[label]? := by
  have hassembles := assembles_of_parse hparse
  have hsound : ∀ line ∈ relisted text p, Text.EndsSolid line ∧ Text.newline ∉ line :=
    List.forall_mem_map.2 fun c hc => (sound_of_mem_clauses hparse hc).line.2
  have hread := Text.lines_stacked
    (fun line hline => ⟨(hsound line hline).1.ne_nil, (hsound line hline).1.chomp_eq⟩)
    (fun line hline => (hsound line hline).2) hshort
  have hrows : (Source.ofText (Text.stacked (relisted text p))).lines.map Token.ofLine =
      (clauses (declarations (Source.ofText text).lines) p.entries).map Clause.row := by
    rw [Source.ofText, hread, relisted, List.map_map]
    exact List.map_congr_left fun c hc => (sound_of_mem_clauses hparse hc).line.1
  have hnone : ∀ d ∈ ([] : List (Nat × Text)), d.1 < 1 := by simp
  obtain ⟨hpass, hlabels⟩ := hassembles.pass.clauses hnone (show [] = [] ++ [] from rfl) (Places.nil _ _ _) 1
  rw [List.nil_append, ← declarations_eq_rowLabels, ← hrows] at hpass hlabels
  apply exists_parse_of_assembles
  · simp [Source.ofText, hread]
  · refine ⟨hpass, fun label => ?_⟩
    rw [hlabels, hassembles.mem_iff]
    rfl

theorem words_renumbered (entries : List Program.Entry) (number : Nat → Int) :
    (entries.mapIdx fun i e => { e with line := number i }).flatMap (·.words) = entries.flatMap (·.words) := by
  have hwords : (entries.mapIdx fun i e => { e with line := number i }).map (·.words) = entries.map (·.words) := by
    apply List.ext_getElem?
    simp [Function.comp_def]
  rw [List.flatMap_def, List.flatMap_def, hwords]

end

/-- Tokens are found again when they are joined by single spaces. A source that assembles can be laid out anew
from the tokens of its statements and its labels, and assembles to the same words and addresses. -/
theorem parse_stacked_relisted :
    (∀ line : Text, Token.ofLine (Text.spaced (Token.ofLine line)) = Token.ofLine line) ∧
    ∀ (evaluate : Evaluator) (text : Text) (p : Program),
      parse evaluate (Source.ofText text) = .ok p →
      (∀ line ∈ relisted text p, line.length < Text.lineLimit) →
      ∃ q, parse evaluate (Source.ofText (Text.stacked (relisted text p))) = .ok q ∧ q.words = p.words ∧
        (∀ label : Text, q.symbols[label]? = p.symbols[label]?) ∧
        q.entries = p.entries.mapIdx fun i e => { e with line := (1 + i : Nat) } := by
  refine ⟨Token.ofLine_spaced_ofLine, fun evaluate text p hparse hshort => ?_⟩
  obtain ⟨q, hq, hentries, hsymbols⟩ := exists_parse_relisted hparse hshort
  refine ⟨q, hq, ?_, hsymbols, hentries⟩
  rw [Program.words, hentries]
  exact words_renumbered p.entries _

def scatteredText : Text :=
  ascii ":start\n\n :again SET A,[start + B] ; x\r\nDAT $(1 +\t2),-1;y\nDAT $(len(\"(\"))\n:end ; z\n :last\n"

def gatheredLines : List Text :=
  [":start :again SET A , [ start + B ]", "DAT $(1 +\t2) , - 1", "DAT $(len(\"(\"))", ":end :last"].map ascii

/-- Labels on lines of their own, an expression with blanks in it, one that is not closed, and labels at the end. -/
theorem parse_stacked_relisted_scattered :
    ∃ p q, parse Constant.closed (Source.ofText scatteredText) = .ok p ∧
      relisted scatteredText p = gatheredLines ∧
      (∀ line ∈ gatheredLines, line.length < Text.lineLimit) ∧
      parse Constant.closed (Source.ofText (Text.stacked gatheredLines)) = .ok q ∧
      q.words = [0x4401, 0, 3, 0xffff, 1] ∧
      p.entries.map (·.line) = [3, 4, 5] ∧ q.entries.map (·.line) = [1, 2, 3] ∧
      q.symbols[ascii "again"]? = some 0 ∧ q.symbols[ascii "last"]? = some 5 := by
  have hparse : (parse Constant.closed (Source.ofText scatteredText)).map (fun p => (p.entries, p.symbols.toList)) =
      .ok ([⟨3, 0, ["SET", "A", ",", "[", "start", "+", "B", "]"].map ascii, [0x4401, 0]⟩,
        ⟨4, 2, ["DAT", "$(1 +\t2)", ",", "-", "1"].map ascii, [3, 0xffff]⟩,
        ⟨5, 4, ["DAT", "$(len(\"(\"))"].map ascii, [1]⟩],
        [(ascii "again", 0), (ascii "end", 5), (ascii "last", 5), (ascii "start", 0)]) := by decide +kernel
  obtain ⟨p, hp, hvalues⟩ := map_eq_ok_iff.1 hparse
  obtain ⟨hentries, hsymbols⟩ := Prod.mk.inj hvalues
  have hlines : relisted scatteredText p = gatheredLines := by
    rw [relisted, ← hentries]
    decide +kernel
  have hshort : ∀ line ∈ gatheredLines, line.length < Text.lineLimit := by decide +kernel
  obtain ⟨q, hq, hwords, hlookup, hnumbers⟩ :=
    parse_stacked_relisted.2 Constant.closed scatteredText p hp (by rwa [hlines])
  rw [hlines] at hq
  have hold : p.words = [0x4401, 0, 3, 0xffff, 1] := by
    rw [Program.words, ← hentries]
    rfl
  have haddress : ∀ label address, (label, address) ∈ p.symbols.toList → q.symbols[label]? = some address := by
    intro label address hlabel
    rw [hlookup]
    exact Std.TreeMap.mem_toList_iff_getElem?_eq_some.1 hlabel
  rw [← hsymbols] at haddress
  rw [← hentries] at hnumbers
  exact ⟨p, q, hp, hlines, hshort, hq, hwords.trans hold, by rw [← hentries]; rfl, by rw [hnumbers]; rfl,
    haddress _ _ (by simp), haddress _ _ (by simp)⟩

end Assembly
end Asm16
