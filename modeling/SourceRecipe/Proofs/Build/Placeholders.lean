import SourceRecipe.Proofs.Build.Version
import SourceRecipe.Proofs.Text.Placeholders
import SourceRecipe.Proofs.Tree.Listing

/-!
# Placeholders and revision numbers

A version template is worked out in rounds, each of which asks for one revision number and puts it
in for every placeholder of its branch.  The rounds come to an end, as each takes an opening brace
away, and where braces do not nest they come to the same as replacing all placeholders at once by
the numbers of their branches: what one round puts in is digits, which neither make a placeholder
nor touch one.
-/

namespace SourceRecipe

open SourceRecipe.Text SourceRecipe.Version

variable {σ : Type}

namespace Numbering

def nicknameLead : List Char := "revno:".toList

/-- What is between the braces of a placeholder for the number of the base, or of the branch with a
nickname. -/
def between : Option String → List Char
  | none => "revno".toList
  | some nickname => nicknameLead ++ nickname.toList

/-- The branch that a placeholder stands for, by what is between its braces: the base, or the
first with the nickname in the order of recipe text. -/
def branchOf? (tree : Tree Pinned) (inside : List Char) : Option Pinned :=
  if inside = between none then some tree.base
  else
    match dropLead? nicknameLead inside with
    | none => none
    | some nickname =>
        ((tree.instructions.listing 0).find? fun line =>
          line.nickname = String.ofList nickname).map Entry.branch

structure Inquiry where
  inside : List Char
  answer : Except Fault (Option Nat)

/-- A world before and after some calls for revision numbers, made one after the other, each for
the branch of its placeholder. -/
inductive Asked (backend : Backend σ) (token : Token) (tree : Tree Pinned) :
    World σ → List Inquiry → World σ → Prop where
  | nothing (world : World σ) : Asked backend token tree world [] world
  | number {world middle after : World σ} {inside : List Char} {branch : Pinned}
      {answer : Except Fault (Option Nat)} {others : List Inquiry}
      (stands : branchOf? tree inside = some branch)
      (called : backend.revno token branch.source.location branch.revision world =
        (answer, middle))
      (rest : Asked backend token tree middle others after) :
      Asked backend token tree world (⟨inside, answer⟩ :: others) after

/-- The number that a placeholder is replaced by, when it stands for a branch with one. -/
def numberOf? (tree : Tree Pinned) (numbers : List Char → Option Nat) (inside : List Char) :
    Option Nat :=
  (branchOf? tree inside).bind fun _ => numbers inside

/-- Whether numbers decide on what a template comes to: if every placeholder has one, it is the
text with all of them replaced, and otherwise it is refused as a version. -/
def Decided (tree : Tree Pinned) (numbers : List Char → Option Nat) (list : List Part)
    (result : Except BuildError (List Char)) : Prop :=
  ((∀ inside, .placeholder inside ∈ list → (numberOf? tree numbers inside).isSome) ∧
      result = .ok (fill (numberOf? tree numbers) list)) ∨
    (∃ inside, .placeholder inside ∈ list ∧ numberOf? tree numbers inside = none) ∧
      ∃ flaw, result = .error (.version flaw)

/-! ## Placeholders and their branches -/

theorem text_between (key : Option String) :
    (Part.placeholder (between key)).text = revnoPlaceholder key := by
  cases key with
  | none => rfl
  | some nickname => rfl

theorem closing_not_mem_between_none : '\x7d' ∉ between none := by
  decide

theorem branchOf?_base (tree : Tree Pinned) : branchOf? tree (between none) = some tree.base :=
  if_pos rfl

theorem branchOf?_named (tree : Tree Pinned) (nickname : String) :
    branchOf? tree (between (some nickname)) = (tree.find? nickname).map Step.branch := by
  have differs : between (some nickname) ≠ between none := by
    intro same
    have colon : ':' ∈ between (some nickname) := List.mem_append_left _ (by decide)
    rw [same] at colon
    exact absurd colon (by decide)
  rw [branchOf?, if_neg differs, between, dropLead?_append]
  dsimp only
  rw [String.ofList_toList]
  exact (Instructions.map_branch_find? nickname 0 tree.instructions).symm

/-- A placeholder that is not that of the base stands for the branch with the nickname in it. -/
theorem branchOf?_eq_none {tree : Tree Pinned} {inside : List Char} (other : inside ≠ between none)
    (unnamed : ∀ nickname, inside = between (some nickname) → tree.find? nickname = none) :
    branchOf? tree inside = none := by
  cases dropped : dropLead? nicknameLead inside with
  | none => rw [branchOf?, if_neg other, dropped]
  | some nickname =>
      have named : inside = between (some (String.ofList nickname)) :=
        (eq_of_dropLead? dropped).trans (congrArg _ String.toList_ofList.symm)
      rw [named, branchOf?_named, unnamed _ named, Option.map_none]

theorem placeholderNickname?_between (nickname : String) :
    placeholderNickname? (Part.placeholder (between (some nickname))).text =
      some nickname.toList := by
  have whole : (Part.placeholder (between (some nickname))).text =
      revnoLead ++ (nickname.toList ++ ['\x7d']) :=
    (text_between (some nickname)).trans (List.append_assoc _ _ _)
  rw [whole, placeholderNickname?, dropLead?_append]
  dsimp only
  rw [List.getLast?_concat, if_pos rfl, List.dropLast_concat]

theorem firstPlaceholder?_cons_of_ne {c : Char} (differs : c ≠ '\x7b') (text : List Char) :
    firstPlaceholder? (c :: text) = firstPlaceholder? text := by
  have passes : (c != '\x7b') = true := bne_iff_ne.mpr differs
  rw [firstPlaceholder?, List.dropWhile_cons, if_pos passes, ← firstPlaceholder?]

theorem firstPlaceholder?_text_append {inside : List Char} (clear : '\x7d' ∉ inside)
    (rest : List Char) :
    firstPlaceholder? ((Part.placeholder inside).text ++ rest) =
      some (Part.placeholder inside).text := by
  have stops : ¬ ('\x7b' != '\x7b') = true := by decide
  have clearFront : '\x7d' ∉ '\x7b' :: inside := by
    rw [List.mem_cons, not_or]
    exact ⟨by decide, clear⟩
  have cut := cutFirst?_append clearFront rest
  rw [List.cons_append] at cut
  rw [Part.text, List.cons_append, List.append_assoc, List.singleton_append, firstPlaceholder?,
    List.dropWhile_cons, if_neg stops]
  dsimp only
  rw [cut]
  rfl

/-- The first placeholder in the text of some parts is one of them. -/
theorem mem_of_firstPlaceholder? {list : List Part} {placeholder : List Char}
    (clear : ∀ part ∈ list, part.IsClear)
    (first : firstPlaceholder? (spell list) = some placeholder) :
    ∃ inside, .placeholder inside ∈ list ∧ placeholder = (Part.placeholder inside).text := by
  induction list with
  | nil => cases first
  | cons part others ih =>
      obtain ⟨here, later⟩ := List.forall_mem_cons.mp clear
      cases part with
      | letter c =>
          rw [spell_cons, Part.text, List.singleton_append, firstPlaceholder?_cons_of_ne here]
            at first
          obtain ⟨inside, member, same⟩ := ih later first
          exact ⟨inside, List.mem_cons_of_mem _ member, same⟩
      | placeholder inside =>
          rw [spell_cons, firstPlaceholder?_text_append here.2] at first
          cases first
          exact ⟨inside, List.mem_cons_self, rfl⟩

theorem Part.text_injective {inside other : List Char}
    (same : (Part.placeholder inside).text = (Part.placeholder other).text) : inside = other :=
  List.append_cancel_right (List.cons.inj same).2

theorem placeholder_mem_of_first {list : List Part} {inside : List Char}
    (clear : ∀ part ∈ list, part.IsClear)
    (first : firstPlaceholder? (spell list) = some (Part.placeholder inside).text) :
    .placeholder inside ∈ list := by
  obtain ⟨other, member, same⟩ := mem_of_firstPlaceholder? clear first
  rwa [Part.text_injective same]

/-! ## Answers -/

def reading (branch : Pinned) : Except Fault (Option Nat) → Except BuildError Nat
  | .ok (some number) => .ok number
  | .ok none => .error (.version (.unnumbered branch.source.location branch.revision))
  | .error .cancelled => .error .cancelled
  | .error fault => .error (.lookup branch.source.location fault)

theorem revnoOf_eq {backend : Backend σ} {token : Token} {branch : Pinned} {world after : World σ}
    {answer : Except Fault (Option Nat)}
    (called : backend.revno token branch.source.location branch.revision world = (answer, after)) :
    revnoOf backend token branch world = (reading branch answer, after) := by
  rw [revnoOf, run_bind, Call.attempt, called]
  dsimp only
  cases answer with
  | ok found =>
      cases found with
      | none => rfl
      | some number => rfl
  | error fault =>
      cases fault with
      | cancelled => rfl
      | _ => rfl

/-- What an answer without a number that is no failure comes to. -/
theorem flaw_of_reading {branch : Pinned} {found : Option Nat} {error : BuildError}
    (read : reading branch (.ok found) = .error error) :
    found = none ∧ ∃ flaw, error = .version flaw := by
  cases found with
  | none =>
      cases read
      exact ⟨rfl, _, rfl⟩
  | some number => cases read

theorem number_of_reading {branch : Pinned} {answer : Except Fault (Option Nat)} {number : Nat}
    (read : reading branch answer = .ok number) : answer = .ok (some number) := by
  cases answer with
  | ok found =>
      cases found with
      | none => cases read
      | some other =>
          cases read
          rfl
  | error fault =>
      cases fault with
      | cancelled => cases read
      | _ => cases read

/-! ## Numbers put in -/

theorem opening_not_mem_numeral (number : Nat) : '\x7b' ∉ numeral number :=
  fun member => absurd (isDigit_of_mem_numeral member) (by decide)

/-- A number put in for a branch replaces the placeholder of the branch. -/
theorem substituteRevno_spell {key : Option String} {list : List Part}
    (named : '\x7d' ∉ between key) (number : Nat) (clear : ∀ part ∈ list, part.IsClear) :
    substituteRevno key number (spell list) = spell (putIn (between key) (numeral number) list) := by
  rw [substituteRevno, ← text_between, replace_spell named _ clear]

section

variable {tree : Tree Pinned} {numbers : List Char → Option Nat} {list : List Part}
  {inside : List Char} {branch : Pinned} {answer : Except Fault (Option Nat)}

theorem placeholders_putIn_once {number : Nat} {others : List Inquiry}
    (member : .placeholder inside ∈ list)
    (once : (∀ call ∈ others, .placeholder call.inside ∈ putIn inside (numeral number) list) ∧
      (others.map Inquiry.inside).Nodup) :
    (∀ call ∈ (⟨inside, answer⟩ :: others : List Inquiry), .placeholder call.inside ∈ list) ∧
      ((⟨inside, answer⟩ :: others : List Inquiry).map Inquiry.inside).Nodup := by
  obtain ⟨among, distinct⟩ := once
  refine ⟨List.forall_mem_cons.mpr ⟨member, fun call later => ?_⟩,
    List.nodup_cons.mpr ⟨fun again => ?_, distinct⟩⟩
  · exact (placeholder_mem_putIn.mp (among call later)).2
  · obtain ⟨call, later, same⟩ := List.mem_map.mp again
    exact (placeholder_mem_putIn.mp (among call later)).1 same

/-- A branch without a number decides. -/
theorem Decided.of_failed {error : BuildError} (member : .placeholder inside ∈ list)
    (stands : branchOf? tree inside = some branch) (told : answer = .ok (numbers inside))
    (read : reading branch answer = .error error) : Decided tree numbers list (.error error) := by
  rw [told] at read
  obtain ⟨numberless, flaw, rfl⟩ := flaw_of_reading read
  refine .inr ⟨⟨inside, member, ?_⟩, flaw, rfl⟩
  rw [numberOf?, stands]
  exact numberless

/-- What is decided once a number is put in was decided before. -/
theorem Decided.of_putIn {result : Except BuildError (List Char)} {number : Nat}
    (stands : branchOf? tree inside = some branch) (told : answer = .ok (numbers inside))
    (read : reading branch answer = .ok number)
    (decided : Decided tree numbers (putIn inside (numeral number) list) result) :
    Decided tree numbers list result := by
  have numbered : numberOf? tree numbers inside = some number := by
    rw [numberOf?, stands]
    exact Except.ok.inj (told.symm.trans (number_of_reading read))
  rcases decided with ⟨all, same⟩ | ⟨⟨other, member, numberless⟩, flawed⟩
  · refine .inl ⟨fun other member => ?_, ?_⟩
    · by_cases same : other = inside
      · rw [same, numbered]
        rfl
      · exact all other (placeholder_mem_putIn.mpr ⟨same, member⟩)
    · rw [same, fill_putIn numbered]
  · exact .inr ⟨⟨other, (placeholder_mem_putIn.mp member).2, numberless⟩, flawed⟩

end

/-- The numbers of the branches that placeholders stand for, by the numbers of the revisions. -/
def numbersBy (number : String → String → Option Nat) (tree : Tree Pinned) (inside : List Char) :
    Option Nat :=
  (branchOf? tree inside).bind fun branch => number branch.source.location branch.revision

/-- When the numbers of revisions stay what they are, the calls return those of the branches that
the placeholders stand for. -/
theorem Asked.answer_eq {backend : Backend σ} {token : Token} {tree : Tree Pinned}
    {number : String → String → Option Nat} {calls : List Inquiry} {world after : World σ}
    (steady : ∀ location revision world,
      (backend.revno token location revision world).1 = .ok (number location revision))
    (asked : Asked backend token tree world calls after) :
    ∀ call ∈ calls, call.answer = .ok (numbersBy number tree call.inside) := by
  induction asked with
  | nothing world => exact List.forall_mem_nil _
  | @number world _ _ _ branch _ _ stands called rest ih =>
      refine List.forall_mem_cons.mpr ⟨?_, ih⟩
      have told := steady branch.source.location branch.revision world
      rw [called] at told
      rw [numbersBy, stands]
      exact told

/-! ## Rounds -/

/-- The rounds in which a template is worked out, each for the first placeholder that is left: how
they end, and the calls made in them. -/
inductive Rounds (backend : Backend σ) (token : Token) (tree : Tree Pinned) :
    List Char → World σ → List Inquiry → Except BuildError (List Char) → World σ → Prop where
  | done {template : List Char} {world : World σ} (none : '\x7b' ∉ template) :
      Rounds backend token tree template world [] (.ok template) world
  /-- The first placeholder names no branch. -/
  | refused {template placeholder : List Char} {world : World σ} {flaw : VersionFlaw}
      (first : firstPlaceholder? template = some placeholder)
      (unnamed : ∀ nickname, placeholder = (Part.placeholder (between (some nickname))).text →
        tree.find? nickname = none) :
      Rounds backend token tree template world [] (.error (.version flaw)) world
  | failed {template : List Char} {nickname : String} {step : Step Pinned}
      {world after : World σ} {answer : Except Fault (Option Nat)} {error : BuildError}
      (first : firstPlaceholder? template =
        some (Part.placeholder (between (some nickname))).text)
      (found : tree.find? nickname = some step)
      (called : backend.revno token step.branch.source.location step.branch.revision world =
        (answer, after))
      (read : reading step.branch answer = .error error) :
      Rounds backend token tree template world [⟨between (some nickname), answer⟩] (.error error)
        after
  | round {template : List Char} {nickname : String} {step : Step Pinned}
      {world middle after : World σ} {answer : Except Fault (Option Nat)} {number : Nat}
      {others : List Inquiry} {result : Except BuildError (List Char)}
      (first : firstPlaceholder? template =
        some (Part.placeholder (between (some nickname))).text)
      (found : tree.find? nickname = some step)
      (called : backend.revno token step.branch.source.location step.branch.revision world =
        (answer, middle))
      (read : reading step.branch answer = .ok number)
      (rest : Rounds backend token tree (substituteRevno (some nickname) number template) middle
        others result after) :
      Rounds backend token tree template world (⟨between (some nickname), answer⟩ :: others) result
        after

section

variable {backend : Backend σ} {token : Token} {tree : Tree Pinned}

/-- A template is worked out in rounds. -/
theorem expandNamed_rounds (written : String) (template : List Char) (world : World σ) :
    ∃ calls result after, Rounds backend token tree template world calls result after ∧
      expandNamed backend token tree written template world = (result, after) := by
  cases first : firstPlaceholder? template with
  | none =>
      rw [expandNamed_of_none first]
      exact ⟨[], _, _, .done (firstPlaceholder?_eq_none_iff.mp first), rfl⟩
  | some placeholder =>
      rw [expandNamed_of_some first]
      cases named : placeholderNickname? placeholder with
      | none =>
          refine ⟨[], _, _, .refused first fun nickname same => ?_, rfl⟩
          rw [same, placeholderNickname?_between] at named
          cases named
      | some letters =>
          have same := eq_of_placeholderNickname? named
          rw [← text_between] at same
          dsimp only
          cases found : tree.find? (String.ofList letters) with
          | none =>
              refine ⟨[], _, _, .refused first fun nickname other => ?_, rfl⟩
              rw [other, placeholderNickname?_between] at named
              cases named
              rwa [String.ofList_toList] at found
          | some step =>
              rw [same] at first
              cases called : backend.revno token step.branch.source.location step.branch.revision
                  world with
              | mk answer middle =>
                  dsimp only
                  rw [run_bind, revnoOf_eq called]
                  cases read : reading step.branch answer with
                  | error error => exact ⟨_, _, _, .failed first found called read, rfl⟩
                  | ok number =>
                      have fewer := count_substituteRevno_lt number (same ▸ first) named
                      obtain ⟨calls, result, after, rest, ran⟩ :=
                        expandNamed_rounds written
                          (substituteRevno (some (String.ofList letters)) number template) middle
                      exact ⟨_, _, _, .round first found called read rest, ran⟩
termination_by template.count '\x7b'

namespace Rounds

variable {template : List Char} {world after : World σ} {calls : List Inquiry}
  {result : Except BuildError (List Char)}

theorem asked (rounds : Rounds backend token tree template world calls result after) :
    Asked backend token tree world calls after := by
  induction rounds with
  | done none => exact .nothing _
  | refused first unnamed => exact .nothing _
  | failed first found called read =>
      refine .number ?_ called (.nothing _)
      rw [branchOf?_named, found, Option.map_some]
  | round first found called read rest ih =>
      refine .number ?_ called ih
      rw [branchOf?_named, found, Option.map_some]

/-- Nothing is left of braces when the rounds come to a version. -/
theorem clear (rounds : Rounds backend token tree template world calls result after) :
    ∀ version, result = .ok version → '\x7b' ∉ version := by
  induction rounds with
  | done none =>
      intro version same
      cases same
      exact none
  | refused first unnamed =>
      intro version impossible
      cases impossible
  | failed first found called read =>
      intro version impossible
      cases impossible
  | round first found called read rest ih => exact ih

/-- There are no more calls than opening braces. -/
theorem length_le (rounds : Rounds backend token tree template world calls result after) :
    calls.length ≤ template.count '\x7b' := by
  induction rounds with
  | done none => exact Nat.zero_le _
  | refused first unnamed => exact Nat.zero_le _
  | @failed template nickname step world after answer error first found called read =>
      have fewer := count_substituteRevno_lt 0 first (placeholderNickname?_between nickname)
      exact Nat.lt_of_le_of_lt (Nat.zero_le _) fewer
  | @round template nickname step world middle after answer number others result first found
      called read rest ih =>
      have fewer := count_substituteRevno_lt number first (placeholderNickname?_between nickname)
      rw [String.ofList_toList] at fewer
      exact Nat.lt_of_le_of_lt ih fewer

section

variable {list : List Part} (clear : ∀ part ∈ list, part.IsClear) (spelled : spell list = template)

include clear spelled

/-- Where braces do not nest, every call is for a placeholder of the template, and no two calls are
for the same one. -/
theorem once (rounds : Rounds backend token tree template world calls result after) :
    (∀ call ∈ calls, .placeholder call.inside ∈ list) ∧ (calls.map Inquiry.inside).Nodup := by
  induction rounds generalizing list with
  | done none => exact ⟨List.forall_mem_nil _, List.nodup_nil⟩
  | refused first unnamed => exact ⟨List.forall_mem_nil _, List.nodup_nil⟩
  | failed first found called read =>
      subst spelled
      exact ⟨List.forall_mem_singleton.mpr (placeholder_mem_of_first clear first),
        List.pairwise_singleton _ _⟩
  | @round template nickname step world middle after answer number others result first found
      called read rest ih =>
      subst spelled
      have member := placeholder_mem_of_first clear first
      exact placeholders_putIn_once member (ih
        (isClear_of_mem_putIn (opening_not_mem_numeral number) clear)
        (substituteRevno_spell (clear _ member).2 number clear).symm)

/-- Where braces do not nest, the numbers of the branches decide on the version, the number of the
base being put in already. -/
theorem decided (rounds : Rounds backend token tree template world calls result after)
    (noBase : .placeholder (between none) ∉ list) {numbers : List Char → Option Nat}
    (answers : ∀ call ∈ calls, call.answer = .ok (numbers call.inside)) :
    Decided tree numbers list result := by
  induction rounds generalizing list with
  | done none =>
      subst spelled
      have letters : ∀ inside, .placeholder inside ∉ list := fun inside member =>
        none (List.mem_flatMap.mpr ⟨_, member, List.mem_cons_self⟩)
      refine .inl ⟨fun inside member => absurd member (letters inside), ?_⟩
      rw [fill_of_letters letters]
  | refused first unnamed =>
      subst spelled
      obtain ⟨inside, member, rfl⟩ := mem_of_firstPlaceholder? clear first
      refine .inr ⟨⟨inside, member, ?_⟩, _, rfl⟩
      have other : inside ≠ between none := by
        rintro rfl
        exact noBase member
      rw [numberOf?, branchOf?_eq_none other fun nickname same => unnamed nickname (by rw [same]),
        Option.bind_none]
  | @failed template nickname step world after answer error first found called read =>
      subst spelled
      have stands : branchOf? tree (between (some nickname)) = some step.branch := by
        rw [branchOf?_named, found, Option.map_some]
      exact .of_failed (placeholder_mem_of_first clear first) stands
        (answers _ List.mem_cons_self) read
  | @round template nickname step world middle after answer number others result first found
      called read rest ih =>
      subst spelled
      obtain ⟨here, later⟩ := List.forall_mem_cons.mp answers
      have member := placeholder_mem_of_first clear first
      have stands : branchOf? tree (between (some nickname)) = some step.branch := by
        rw [branchOf?_named, found, Option.map_some]
      exact .of_putIn stands here read (ih
        (isClear_of_mem_putIn (opening_not_mem_numeral number) clear)
        (substituteRevno_spell (clear _ member).2 number clear).symm
        (fun again => noBase (placeholder_mem_putIn.mp again).2) later)

end

end Rounds

/-! ## The base first -/

/-- How a template is worked out: the number of the base is asked for first if it has to be, and
the rounds follow. -/
inductive Expands (backend : Backend σ) (token : Token) (tree : Tree Pinned) :
    List Char → World σ → List Inquiry → Except BuildError (List Char) → World σ → Prop where
  | named {template : List Char} {world after : World σ} {calls : List Inquiry}
      {result : Except BuildError (List Char)} (none : needsRevno none template = false)
      (rounds : Rounds backend token tree template world calls result after) :
      Expands backend token tree template world calls result after
  | failed {template : List Char} {world after : World σ} {answer : Except Fault (Option Nat)}
      {error : BuildError} (needs : needsRevno none template = true)
      (called : backend.revno token tree.base.source.location tree.base.revision world =
        (answer, after))
      (read : reading tree.base answer = .error error) :
      Expands backend token tree template world [⟨between none, answer⟩] (.error error) after
  | base {template : List Char} {world middle after : World σ}
      {answer : Except Fault (Option Nat)} {number : Nat} {calls : List Inquiry}
      {result : Except BuildError (List Char)} (needs : needsRevno none template = true)
      (called : backend.revno token tree.base.source.location tree.base.revision world =
        (answer, middle))
      (read : reading tree.base answer = .ok number)
      (rounds : Rounds backend token tree (substituteRevno none number template) middle calls
        result after) :
      Expands backend token tree template world (⟨between none, answer⟩ :: calls) result after

theorem expand_expands (template : List Char) (world : World σ) :
    ∃ calls result after, Expands backend token tree template world calls result after ∧
      expand backend token tree template world = (result, after) := by
  rw [expand]
  cases needs : needsRevno none template with
  | false =>
      rw [if_neg Bool.false_ne_true]
      obtain ⟨calls, result, after, rounds, ran⟩ :=
        expandNamed_rounds (String.ofList template) template world
      exact ⟨calls, result, after, .named needs rounds, ran⟩
  | true =>
      rw [if_pos rfl]
      cases called : backend.revno token tree.base.source.location tree.base.revision world with
      | mk answer middle =>
          rw [run_bind, revnoOf_eq called]
          cases read : reading tree.base answer with
          | error error => exact ⟨_, _, _, .failed needs called read, rfl⟩
          | ok number =>
              obtain ⟨calls, result, after, rounds, ran⟩ :=
                expandNamed_rounds (String.ofList template) (substituteRevno none number template)
                  middle
              exact ⟨_, _, _, .base needs called read rounds, ran⟩

theorem needsRevno_spell {list : List Part} (clear : ∀ part ∈ list, part.IsClear) :
    needsRevno none (spell list) = decide (.placeholder (between none) ∈ list) := by
  rw [needsRevno, ← text_between, occursIn_spell closing_not_mem_between_none clear]

/-- A number put in for the base takes an opening brace away. -/
theorem count_substituteRevno_none_lt {template : List Char}
    (needs : needsRevno none template = true) (number : Nat) :
    (substituteRevno none number template).count '\x7b' < template.count '\x7b' :=
  count_replace_lt_of_occursIn (count_numeral (by decide)) rfl needs

namespace Expands

variable {template : List Char} {world after : World σ} {calls : List Inquiry}
  {result : Except BuildError (List Char)}
  (expands : Expands backend token tree template world calls result after)

include expands

theorem asked : Asked backend token tree world calls after := by
  cases expands with
  | named none rounds => exact rounds.asked
  | failed needs called read => exact .number (branchOf?_base tree) called (.nothing _)
  | base needs called read rounds => exact .number (branchOf?_base tree) called rounds.asked

theorem clear : ∀ version, result = .ok version → '\x7b' ∉ version := by
  cases expands with
  | named none rounds => exact rounds.clear
  | failed needs called read =>
      intro version impossible
      cases impossible
  | base needs called read rounds => exact rounds.clear

theorem length_le : calls.length ≤ template.count '\x7b' := by
  cases expands with
  | named none rounds => exact rounds.length_le
  | failed needs called read =>
      exact Nat.lt_of_le_of_lt (Nat.zero_le _) (count_substituteRevno_none_lt needs 0)
  | base needs called read rounds =>
      exact Nat.lt_of_le_of_lt rounds.length_le (count_substituteRevno_none_lt needs _)

variable {list : List Part} (clears : ∀ part ∈ list, part.IsClear) (spelled : spell list = template)

include clears spelled

theorem once : (calls.map Inquiry.inside).Nodup := by
  subst spelled
  cases expands with
  | named none rounds => exact (rounds.once clears rfl).2
  | failed needs called read => exact List.pairwise_singleton _ _
  | @base middle _ answer number others _ needs called read rounds =>
      rw [needsRevno_spell clears, decide_eq_true_iff] at needs
      exact (placeholders_putIn_once needs (rounds.once
        (isClear_of_mem_putIn (opening_not_mem_numeral number) clears)
        (substituteRevno_spell closing_not_mem_between_none number clears).symm)).2

theorem decided {numbers : List Char → Option Nat}
    (answers : ∀ call ∈ calls, call.answer = .ok (numbers call.inside)) :
    Decided tree numbers list result := by
  subst spelled
  cases expands with
  | named none rounds =>
      rw [needsRevno_spell clears, decide_eq_false_iff_not] at none
      exact rounds.decided clears rfl none answers
  | failed needs called read =>
      rw [needsRevno_spell clears, decide_eq_true_iff] at needs
      exact .of_failed needs (branchOf?_base tree) (answers _ List.mem_cons_self) read
  | @base middle _ answer number others _ needs called read rounds =>
      obtain ⟨here, later⟩ := List.forall_mem_cons.mp answers
      exact .of_putIn (branchOf?_base tree) here read (rounds.decided
        (isClear_of_mem_putIn (opening_not_mem_numeral number) clears)
        (substituteRevno_spell closing_not_mem_between_none number clears).symm
        (fun again => (placeholder_mem_putIn.mp again).1 rfl) later)

end Expands

end

/-! ## The version -/

/-- A template is worked out whatever it is: no more revision numbers are asked for than it has
opening braces, each for the branch of its placeholder, and what comes out as a version has none
left.  Where braces do not nest, no placeholder is asked for twice; and when the calls return the
numbers of the branches, these numbers decide: if every placeholder has one, the version is the
template with all of them replaced at once, and otherwise the template is refused. -/
theorem expand_decided (backend : Backend σ) (token : Token) (tree : Tree Pinned)
    (template : List Char) (world : World σ) :
    ∃ calls result after,
      expand backend token tree template world = (result, after) ∧
      Asked backend token tree world calls after ∧
      calls.length ≤ template.count '\x7b' ∧
      (∀ version, result = .ok version → '\x7b' ∉ version) ∧
      (Unnested template →
        (calls.map Inquiry.inside).Nodup ∧
        ∀ numbers : List Char → Option Nat,
          (∀ call ∈ calls, call.answer = .ok (numbers call.inside)) →
          Decided tree numbers (parts template) result) := by
  obtain ⟨calls, result, after, expands, ran⟩ := expand_expands template world
  refine ⟨calls, result, after, ran, expands.asked, expands.length_le, expands.clear, ?_⟩
  intro unnested
  obtain ⟨list, clears, rfl⟩ := unnested.exists_spell
  rw [parts_spell clears]
  exact ⟨expands.once clears rfl, fun numbers answers => expands.decided clears rfl answers⟩

def counting (number : String → String → Option Nat) : Backend σ where
  lookup _ branch _ := throw (.branchNotFound branch)
  checkout _ branch _ _ := throw (.branchNotFound branch)
  merge _ _ branch _ _ := throw (.branchNotFound branch)
  revno _ branch revision := pure (number branch revision)

/-- A recipe for a package, of which the base has been worked on more often. -/
def packagedTree : Tree Pinned :=
  ⟨⟨⟨"/trunk", .tip⟩, "t42"⟩,
    .step "packaging" .merge ⟨⟨"/packaging", .tip⟩, "p7"⟩ .done .done⟩

/-- Both numbers are put in; without one of them the template is refused. -/
theorem expand_decided_packagedTree :
    (∃ after, expand (counting fun branch _ => if branch = "/trunk" then some 42 else some 7)
        ⟨0, none⟩ packagedTree "1.0+\x7brevno\x7d-\x7brevno:packaging\x7d".toList
        (.initial ()) = (.ok "1.0+42-7".toList, after)) ∧
      ∃ flaw after, expand (counting fun branch _ => if branch = "/trunk" then some 42 else none)
        ⟨0, none⟩ packagedTree "1.0+\x7brevno\x7d-\x7brevno:packaging\x7d".toList
        (.initial ()) = (.error (.version flaw), after) := by
  have unnested : Unnested "1.0+\x7brevno\x7d-\x7brevno:packaging\x7d".toList := by
    decide
  constructor
  · obtain ⟨calls, result, after, ran, asked, _, _, decides⟩ :=
      expand_decided (counting fun branch _ => if branch = "/trunk" then some 42 else some 7)
        ⟨0, none⟩ packagedTree "1.0+\x7brevno\x7d-\x7brevno:packaging\x7d".toList (.initial ())
    have answers := asked.answer_eq fun _ _ _ => rfl
    rcases (decides unnested).2 _ answers with ⟨_, rfl⟩ | ⟨⟨inside, member, numberless⟩, _⟩
    · exact ⟨after, ran⟩
    · simp only [parts, String.reduceToList, partsFrom, ↓Char.isValue, Char.reduceEq, ↓reduceIte,
        List.nil_append, List.cons_append, List.mem_cons, reduceCtorEq, Part.placeholder.injEq,
        List.not_mem_nil, or_false, false_or] at member
      rcases member with rfl | rfl
      · exact absurd numberless (by decide)
      · exact absurd numberless (by decide)
  · obtain ⟨calls, result, after, ran, asked, _, _, decides⟩ :=
      expand_decided (counting fun branch _ => if branch = "/trunk" then some 42 else none)
        ⟨0, none⟩ packagedTree "1.0+\x7brevno\x7d-\x7brevno:packaging\x7d".toList (.initial ())
    have answers := asked.answer_eq fun _ _ _ => rfl
    rcases (decides unnested).2 _ answers with ⟨all, _⟩ | ⟨_, flaw, rfl⟩
    · exact absurd (all "revno:packaging".toList (by decide)) (by decide)
    · exact ⟨flaw, after, ran⟩

end Numbering

end SourceRecipe
