import SourceRecipe.Build.Session
import SourceRecipe.Build.Workers
import SourceRecipe.Proofs.Build.Lookups
import SourceRecipe.Proofs.Build.Version

/-!
# Effects of the steps of a build

A step of a build changes what the system keeps and the files through the calls it makes and the
events it tells an observer of, and through nothing else.  A step is followed when its calls and
events can be recorded without changing it and account for all it does; sequences of steps that are
followed are followed.  So what a step can touch is read off from what it may ask and tell: pinning
a tree asks for revisions, working out a version asks for revision numbers, and only the run of a
plan asks for anything else.
-/

namespace SourceRecipe

open SourceRecipe.Version

variable {σ α β : Type}

/-- Whom a build deals with: the system, with the token that it is to look at, and the observer. -/
structure Parties (σ : Type) where
  backend : Backend σ
  token : Token
  observer : Observer σ

/-- Whether an event takes a world to another one: by the call with this answer, or by the observer
who is told. -/
def Parties.Takes (parties : Parties σ) (world after : World σ) : TraceEvent → Prop
  | .told event fired =>
      after = parties.observer event world ∧ fired = world.hasFired parties.token
  | .lookedUp branch specifier answer =>
      parties.backend.lookup parties.token branch specifier world = (answer, after)
  | .checkedOut branch revision target answer =>
      parties.backend.checkout parties.token branch revision target world = (answer, after)
  | .merged tree branch revision message answer =>
      parties.backend.merge parties.token tree branch revision message world = (answer, after)
  | .counted branch revision answer =>
      parties.backend.revno parties.token branch revision world = (answer, after)

/-- A world before and after some events, when everything else that is done besides leaves alone
what the system keeps and the files. -/
inductive Parties.Leads (parties : Parties σ) : World σ → List TraceEvent → World σ → Prop where
  | nothing (world : World σ) : Leads parties world [] world
  | own {world middle after : World σ} {trace : List TraceEvent}
      (store : middle.store = world.store) (files : middle.files = world.files)
      (rest : Leads parties middle trace after) : Leads parties world trace after
  | event {world middle after : World σ} {event : TraceEvent} {trace : List TraceEvent}
      (takes : parties.Takes world middle event) (rest : Leads parties middle trace after) :
      Leads parties world (event :: trace) after

/-- Whether a step is followed: recording its calls and events changes nothing about it, they
account for what it does, all of them are allowed, and what it gives is as said. -/
def Parties.Follows (parties : Parties σ) (Allows : TraceEvent → Prop) (Gives : α → Prop)
    (step : World σ → α × World σ) (recorded : World (Traced σ) → α × World (Traced σ)) : Prop :=
  ∀ world, ∃ added,
    (∀ trace, recorded (world.traced trace) =
      ((step world).1, (step world).2.traced (trace ++ added))) ∧
    parties.Leads world added (step world).2 ∧ (∀ event ∈ added, Allows event) ∧
    Gives (step world).1

def FailsAs {ε : Type} (Kind : ε → Prop) (result : Except ε α) : Prop :=
  ∀ error, result = .error error → Kind error

theorem FailsAs.ok {ε : Type} {Kind : ε → Prop} (given : α) :
    FailsAs Kind (.ok given : Except ε α) :=
  fun _ impossible => by cases impossible

theorem FailsAs.bind {ε : Type} {Kind : ε → Prop} {step : Except ε β} {next : β → Except ε α}
    (first : FailsAs Kind step) (second : ∀ between, FailsAs Kind (next between)) :
    FailsAs Kind (step >>= next) := by
  intro error failed
  rcases bind_eq_error_iff.mp failed with failed | ⟨between, _, failed⟩
  · exact first error failed
  · exact second between error failed

/-- Whether nothing but a revision or a number is asked for. -/
def TraceEvent.IsInquiry : TraceEvent → Prop
  | lookedUp _ _ _ => True
  | counted _ _ _ => True
  | _ => False

namespace Parties

variable {parties : Parties σ} {Allows : TraceEvent → Prop}

theorem Leads.append {world middle after : World σ} {first second : List TraceEvent}
    (leads : parties.Leads world first middle) (goesOn : parties.Leads middle second after) :
    parties.Leads world (first ++ second) after := by
  induction leads with
  | nothing world => exact goesOn
  | own store files _ ih => exact .own store files (ih goesOn)
  | event takes _ ih => exact .event takes (ih goesOn)

/-- Files that no call and no observer touches are what they were. -/
theorem Leads.files_eq {world after : World σ} {trace : List TraceEvent}
    (leads : parties.Leads world trace after)
    (untouched : ∀ event ∈ trace, ∀ before later, parties.Takes before later event →
      later.files = before.files) : after.files = world.files := by
  induction leads with
  | nothing world => rfl
  | own store files _ ih => exact (ih untouched).trans files
  | event takes _ ih =>
      obtain ⟨first, later⟩ := List.forall_mem_cons.mp untouched
      exact (ih later).trans (first _ _ takes)

variable {Gives : α → Prop}

namespace Follows

/-! ## Single steps -/

/-- A step that looks at no trace and leaves alone what is kept and the files. -/
theorem own {step : World σ → α × World σ} {recorded : World (Traced σ) → α × World (Traced σ)}
    (same : ∀ trace world,
      recorded (world.traced trace) = ((step world).1, (step world).2.traced trace))
    (keeps : ∀ world, (step world).2.store = world.store ∧ (step world).2.files = world.files)
    (gives : ∀ world, Gives (step world).1) : parties.Follows Allows Gives step recorded := by
  intro world
  refine ⟨[], fun trace => ?_, .own (keeps world).1 (keeps world).2 (.nothing _),
    List.forall_mem_nil _, gives world⟩
  rw [same, List.append_nil]

theorem pure {given : α} (gives : Gives given) :
    parties.Follows Allows Gives (Pure.pure given : StateM (World σ) α)
      (Pure.pure given : StateM (World (Traced σ)) α) :=
  own (fun _ _ => rfl) (fun _ => ⟨rfl, rfl⟩) fun _ => gives

theorem ok {ε : Type} {Kind : ε → Prop} (given : α) :
    parties.Follows Allows (FailsAs Kind) (Pure.pure given : ExceptT ε (StateM (World σ)) α)
      (Pure.pure given : ExceptT ε (StateM (World (Traced σ))) α) :=
  own (fun _ _ => rfl) (fun _ => ⟨rfl, rfl⟩) fun _ _ impossible => by cases impossible

theorem error {ε : Type} {Kind : ε → Prop} {error : ε} (kind : Kind error) :
    parties.Follows Allows (FailsAs Kind) (throw error : ExceptT ε (StateM (World σ)) α)
      (throw error : ExceptT ε (StateM (World (Traced σ))) α) :=
  own (fun _ _ => rfl) (fun _ => ⟨rfl, rfl⟩) fun _ _ same => by
    cases same
    exact kind

/-- A call that is recorded. -/
theorem call {call : Call σ α} {record : Except Fault α → TraceEvent}
    (takes : ∀ world, parties.Takes world (call world).2 (record (call world).1))
    (allowed : ∀ answer, Allows (record answer)) :
    parties.Follows Allows (FailsAs fun _ => True) call (call.traced record) :=
  fun world => ⟨_, fun trace => Call.traced_run record call trace world,
    .event (takes world) (.nothing _), List.forall_mem_singleton.mpr (allowed _),
    fun _ _ => trivial⟩

theorem told {Kind : BuildError → Prop} (progress : Progress) :
    parties.Follows (fun _ => True) (FailsAs Kind)
      (modify (parties.observer progress) : Build σ PUnit)
      (modify (parties.observer.traced parties.token progress) : Build (Traced σ) PUnit) :=
  fun world => ⟨[.told progress (world.hasFired parties.token)], fun _ => rfl,
    .event ⟨rfl, rfl⟩ (.nothing _), List.forall_mem_singleton.mpr trivial,
    fun _ impossible => by cases impossible⟩

theorem note {Kind : BuildError → Prop} (level : Level) (text : String) :
    parties.Follows Allows (FailsAs Kind) (modify (World.note level text) : Build σ PUnit)
      (modify (World.note level text) : Build (Traced σ) PUnit) :=
  own (fun _ _ => rfl) (fun _ => ⟨rfl, rfl⟩) fun _ _ impossible => by cases impossible

/-! ## Sequences of steps -/

theorem bindState {Between : β → Prop} {step : StateM (World σ) β}
    {recorded : StateM (World (Traced σ)) β} {next : β → StateM (World σ) α}
    {nextRecorded : β → StateM (World (Traced σ)) α}
    (first : parties.Follows Allows Between step recorded)
    (second : ∀ between, Between between →
      parties.Follows Allows Gives (next between) (nextRecorded between)) :
    parties.Follows Allows Gives (step >>= next) (recorded >>= nextRecorded) := by
  intro world
  obtain ⟨added, same, leads, allowed, gives⟩ := first world
  obtain ⟨more, sameAgain, goesOn, allowedAgain, givesAgain⟩ := second _ gives (step world).2
  refine ⟨added ++ more, fun trace => ?_, leads.append goesOn,
    List.forall_mem_append.mpr ⟨allowed, allowedAgain⟩, givesAgain⟩
  change nextRecorded (recorded (world.traced trace)).1 (recorded (world.traced trace)).2 = _
  rw [same, sameAgain, List.append_assoc]
  rfl

theorem bind {ε : Type} {Kind : ε → Prop} {step : ExceptT ε (StateM (World σ)) β}
    {recorded : ExceptT ε (StateM (World (Traced σ))) β}
    {next : β → ExceptT ε (StateM (World σ)) α}
    {nextRecorded : β → ExceptT ε (StateM (World (Traced σ))) α}
    (first : parties.Follows Allows (FailsAs Kind) step recorded)
    (second : ∀ between,
      parties.Follows Allows (FailsAs Kind) (next between) (nextRecorded between)) :
    parties.Follows Allows (FailsAs Kind) (step >>= next) (recorded >>= nextRecorded) := by
  have goesOn (result : Except ε β) (fails : FailsAs Kind result) :
      parties.Follows Allows (FailsAs Kind)
        (ExceptT.bindCont (m := StateM (World σ)) next result)
        (ExceptT.bindCont (m := StateM (World (Traced σ))) nextRecorded result) := by
    cases result with
    | error failure => exact error (fails failure rfl)
    | ok between => exact second between
  exact bindState first goesOn

/-- A call as a step does not fail, whatever it answers. -/
theorem attempt {Kind : BuildError → Prop} {call : Call σ α} {recorded : Call (Traced σ) α}
    (follows : parties.Follows Allows (FailsAs fun _ => True) call recorded) :
    parties.Follows Allows (FailsAs Kind) call.attempt recorded.attempt := by
  intro world
  obtain ⟨added, same, leads, allowed, _⟩ := follows world
  refine ⟨added, fun trace => ?_, leads, allowed, fun _ impossible => by cases impossible⟩
  rw [Call.attempt, same]
  rfl

end Follows

end Parties

/-! ## Phases -/

inductive BuildPhase where
  /-- No operation was begun. -/
  | preparing
  | running
  /-- All operations are done. -/
  | writing
  deriving DecidableEq

def BuildError.phase : BuildError → BuildPhase
  | recipe _ => .preparing
  | revisionNotFound _ _ => .preparing
  | plan _ => .preparing
  | lookup _ _ => .preparing
  | cancelled => .preparing
  | version _ => .preparing
  | settings _ => .preparing
  | conflict _ _ _ => .running
  | operation _ _ _ => .running
  | stopped _ => .running
  | file _ _ => .writing

def BuildError.IsOf (phase : BuildPhase) (error : BuildError) : Prop :=
  error.phase = phase

/-! ## Pinning a tree -/

namespace Resolution

variable (parties : Parties σ)

/-- Whether the failures among some outcomes are those of a build that is being prepared. -/
def FailEarly (outcomes : List (Outcome String)) : Prop :=
  ∀ error, some (.error error) ∈ outcomes → error.IsOf .preparing

theorem FailEarly.cons {outcome : Except BuildError String} {others : List (Outcome String)}
    (first : FailsAs (BuildError.IsOf .preparing) outcome) (later : FailEarly others) :
    FailEarly (some outcome :: others) := by
  intro error member
  rcases List.mem_cons.mp member with same | member
  · exact first error (Option.some.inj same).symm
  · exact later error member

theorem FailEarly.cons_none {others : List (Outcome String)} (later : FailEarly others) :
    FailEarly (none :: others) := by
  intro error member
  rcases List.mem_cons.mp member with impossible | member
  · cases impossible
  · exact later error member

theorem errorOf_isOf (source : Source) (fault : Fault) :
    (errorOf source fault).IsOf .preparing := by
  cases fault with
  | _ => rfl

theorem lookup_follows (source : Source) :
    parties.Follows TraceEvent.IsInquiry (FailsAs (BuildError.IsOf .preparing))
      (lookup parties.backend parties.token source)
      (lookup parties.backend.traced parties.token source) := by
  intro world
  refine ⟨[.lookedUp source.location source.specifier
      (parties.backend.lookup parties.token source.location source.specifier world).1],
    fun _ => rfl, .event rfl (.nothing _), List.forall_mem_singleton.mpr trivial, ?_⟩
  intro error failed
  rw [lookup] at failed
  cases answer : parties.backend.lookup parties.token source.location source.specifier world with
  | mk found after =>
      rw [answer] at failed
      cases found with
      | error fault =>
          cases failed
          exact errorOf_isOf source fault
      | ok revision => cases failed

theorem lookupAll_follows (failed : Bool) (sources : List Source) :
    parties.Follows TraceEvent.IsInquiry FailEarly
      (lookupAll parties.backend parties.token failed sources)
      (lookupAll parties.backend.traced parties.token failed sources) := by
  induction sources generalizing failed with
  | nil => exact .pure fun _ impossible => absurd impossible List.not_mem_nil
  | cons source others ih =>
      cases failed with
      | true => exact .bindState (ih true) fun _ later => .pure later.cons_none
      | false =>
          refine .bindState (lookup_follows parties source) fun outcome first => ?_
          exact .bindState (ih (!outcome.isOk)) fun _ later => .pure (later.cons first)

/-- Whether the failures among look-ups under way are those of a build that is being prepared. -/
def Shift.FailsEarly (shift : Shift) : Prop :=
  FailEarly (shift.stages.map Stage.outcome)

theorem Shift.FailsEarly.put {shift : Shift} (early : shift.FailsEarly) (place : Nat) {stage : Stage}
    (kind : ∀ error, stage.outcome = some (.error error) → error.IsOf .preparing) :
    (shift.put place stage).FailsEarly := by
  intro error member
  obtain ⟨other, among, outcome⟩ := List.mem_map.mp member
  rcases List.mem_or_eq_of_mem_set among with kept | rfl
  · exact early error (List.mem_map.mpr ⟨other, kept, outcome⟩)
  · exact kind error outcome

/-- Whatever has come of a look-up, one step more asks for one revision at most. -/
theorem advance_follows (place : Nat) {shift : Shift} (early : shift.FailsEarly) :
    parties.Follows TraceEvent.IsInquiry Shift.FailsEarly
      (advance parties.backend parties.token place shift)
      (advance parties.backend.traced parties.token place shift) := by
  cases here : shift.stages[place]? with
  | none =>
      simp only [advance, here]
      exact .pure early
  | some stage =>
      cases stage with
      | waiting source =>
          simp only [advance, here]
          refine .pure (early.put place fun error impossible => ?_)
          split at impossible
          · cases impossible
          · cases impossible
      | begun source =>
          simp only [advance, here]
          refine .bindState (lookup_follows parties source) fun answer fails => ?_
          exact .pure (early.put place fun error same => fails error (Option.some.inj same))
      | answered answer =>
          simp only [advance, here]
          refine .pure (Shift.FailsEarly.put early place fun error same => ?_)
          exact early error (List.mem_map.mpr ⟨_, List.mem_of_getElem? here, same⟩)
      | ended outcome =>
          simp only [advance, here]
          exact .pure early

theorem advanceAll_follows (turns : List Nat) {shift : Shift} (early : shift.FailsEarly) :
    parties.Follows TraceEvent.IsInquiry Shift.FailsEarly
      (advanceAll parties.backend parties.token turns shift)
      (advanceAll parties.backend.traced parties.token turns shift) := by
  induction turns generalizing shift with
  | nil => exact .pure early
  | cons place later ih => exact .bindState (advance_follows parties place early) fun _ next => ih next

theorem lookupBy_follows (turns : (count : Nat) → Turns count) (sources : List Source) :
    parties.Follows TraceEvent.IsInquiry FailEarly
      (lookupBy parties.backend parties.token turns sources)
      (lookupBy parties.backend.traced parties.token turns sources) := by
  refine .bindState (advanceAll_follows parties _ fun error member => ?_) fun _ early => .pure early
  obtain ⟨stage, among, outcome⟩ := List.mem_map.mp member
  obtain ⟨source, _, rfl⟩ := List.mem_map.mp among
  cases outcome

theorem combine_failsAs {outcomes : List (Outcome String)} (early : FailEarly outcomes) :
    FailsAs (BuildError.IsOf .preparing) (combine outcomes) := by
  intro error failed
  rw [combine] at failed
  cases first : outcomes.findSome? Outcome.error? with
  | some other =>
      rw [first] at failed
      cases failed
      obtain ⟨outcome, member, same⟩ := List.exists_of_findSome?_eq_some first
      cases outcome with
      | none => cases same
      | some answer =>
          cases answer with
          | error other =>
              cases same
              exact early error member
          | ok revision => cases same
  | none =>
      rw [first] at failed
      dsimp only at failed
      split at failed
      · cases failed
        rfl
      · cases failed

theorem pin_failsAs (known : Revisions) (source : Source) :
    FailsAs (BuildError.IsOf .preparing) (pin known source) := by
  intro error failed
  rw [pin] at failed
  split at failed
  · cases failed
  · cases failed
    rfl

theorem pinBlock_failsAs (known : Revisions) (block : Instructions Source) :
    FailsAs (BuildError.IsOf .preparing) (pinBlock known block) := by
  induction block with
  | done => exact .ok _
  | step nickname directive branch inner later innerIh laterIh =>
      exact .bind (pin_failsAs known branch) fun _ =>
        .bind innerIh fun _ => .bind laterIh fun _ => .ok _

theorem pinTree_failsAs (known : Revisions) (tree : Tree Source) :
    FailsAs (BuildError.IsOf .preparing) (pinTree known tree) :=
  .bind (pin_failsAs known tree.base) fun _ =>
    .bind (pinBlock_failsAs known tree.instructions) fun _ => .ok _

/-- A tree is pinned by the look-ups that are made for it and some notices. -/
theorem resolveBy_follows {look : List Source → StateM (World σ) (List (Outcome String))}
    {lookRecorded : List Source → StateM (World (Traced σ)) (List (Outcome String))}
    (looks : ∀ sources,
      parties.Follows TraceEvent.IsInquiry FailEarly (look sources) (lookRecorded sources))
    (known : Revisions) (tree : Tree Source) :
    parties.Follows TraceEvent.IsInquiry
      (fun result => FailsAs (BuildError.IsOf .preparing) result.1)
      (resolveBy look known tree) (resolveBy lookRecorded known tree) := by
  refine .bindState (looks _) fun outcomes early => ?_
  cases combined : combine outcomes with
  | error error =>
      refine .pure fun other same => ?_
      cases same
      exact combine_failsAs early error combined
  | ok revisions =>
      refine .own (fun trace world => ?_) (fun world => ?_) fun world => pinTree_failsAs _ tree
      · exact congrArg (Prod.mk _) (noteAll_traced _ trace world)
      · exact @keeps_noteAll σ world
          (fun later => later.store = world.store ∧ later.files = world.files)
          (fun _ _ _ kept => kept) _ ⟨rfl, rfl⟩

theorem resolveWith_follows (workers : Nat) (pool : Pool) (known : Revisions)
    (tree : Tree Source) :
    parties.Follows TraceEvent.IsInquiry
      (fun result => FailsAs (BuildError.IsOf .preparing) result.1)
      (resolveWith parties.backend parties.token workers pool known tree)
      (resolveWith parties.backend.traced parties.token workers pool known tree) := by
  refine resolveBy_follows parties (fun sources => ?_) known tree
  rw [lookupWith, lookupWith]
  split
  · exact lookupAll_follows parties false sources
  · exact lookupBy_follows parties (pool workers) sources

end Resolution

/-! ## Working out a version -/

namespace Numbering

variable (parties : Parties σ)

theorem revnoOf_follows (branch : Pinned) :
    parties.Follows TraceEvent.IsInquiry (FailsAs (BuildError.IsOf .preparing))
      (revnoOf parties.backend parties.token branch)
      (revnoOf parties.backend.traced parties.token branch) := by
  refine .bind (.attempt (.call (fun _ => rfl) fun _ => trivial)) fun answer => ?_
  cases answer with
  | ok found =>
      cases found with
      | none => exact .error rfl
      | some revno => exact .ok revno
  | error fault =>
      cases fault with
      | _ => exact .error rfl

theorem expandNamed_follows (tree : Tree Pinned) (written : String) (template : List Char) :
    parties.Follows TraceEvent.IsInquiry (FailsAs (BuildError.IsOf .preparing))
      (expandNamed parties.backend parties.token tree written template)
      (expandNamed parties.backend.traced parties.token tree written template) := by
  cases first : firstPlaceholder? template with
  | none =>
      rw [expandNamed_of_none first, expandNamed_of_none first]
      exact .ok template
  | some placeholder =>
      rw [expandNamed_of_some first, expandNamed_of_some first]
      cases named : placeholderNickname? placeholder with
      | none => exact .error rfl
      | some nickname =>
          dsimp only
          cases tree.find? (String.ofList nickname) with
          | none => exact .error rfl
          | some step =>
              refine .bind (revnoOf_follows parties step.branch) fun revno => ?_
              have fewer := count_substituteRevno_lt revno first named
              exact expandNamed_follows tree written _
termination_by template.count '\x7b'

theorem expand_follows (tree : Tree Pinned) (template : List Char) :
    parties.Follows TraceEvent.IsInquiry (FailsAs (BuildError.IsOf .preparing))
      (expand parties.backend parties.token tree template)
      (expand parties.backend.traced parties.token tree template) := by
  rw [expand, expand]
  split
  · exact .bind (revnoOf_follows parties tree.base) fun _ => expandNamed_follows parties tree _ _
  · exact expandNamed_follows parties tree _ _

end Numbering

/-! ## Carrying out a plan -/

namespace Run

variable (parties : Parties σ) (root : Path)

theorem apply_follows (operation : Operation) :
    parties.Follows (fun _ => True) (FailsAs fun _ => True)
      (apply parties.backend parties.token root operation)
      (apply parties.backend.traced parties.token root operation) := by
  rcases operation with ⟨action, branch, revision, target, depth⟩
  cases action with
  | merge nickname repeated =>
      cases repeated with
      | true => exact .ok true
      | false => exact .bind (.call (fun _ => rfl) fun _ => trivial) fun _ => .ok _
  | checkout | nest => exact .bind (.call (fun _ => rfl) fun _ => trivial) fun _ => .ok false

theorem errorOf_isOf (index : Nat) (operation : Operation) (fault : Fault) :
    (errorOf index operation fault).IsOf .running := by
  cases fault with
  | _ => rfl

/-- What a fault is noted as is nothing but a notice. -/
theorem noteFault_follows {Kind : BuildError → Prop} (operation : Operation) (fault : Fault) :
    parties.Follows (fun _ => True) (FailsAs Kind)
      (modify (noteFault operation fault) : Build σ PUnit)
      (modify (noteFault operation fault) : Build (Traced σ) PUnit) := by
  refine .own (fun trace world => ?_) (fun world => ?_) fun _ => .ok _
  · exact congrArg (Prod.mk _) (noteFault_traced operation fault trace world)
  · cases fault with
    | _ => exact ⟨rfl, rfl⟩

/-- The first operation of a run whose token has not fired, and the others after it. -/
def carryOn (backend : Backend σ) (token : Token) (root : Path) (observer : Observer σ)
    (total index : Nat) (operation : Operation) (others : List Operation) :
    Build σ (List ManifestEntry) := do
  modify (observer (.starting index total operation))
  match ← (apply backend token root operation).attempt with
  | .error fault =>
      modify (noteFault operation fault)
      throw (errorOf index operation fault)
  | .ok unchanged =>
      modify (observer (.completed index total operation unchanged))
      let entries ← runFrom backend token root observer total (index + 1) others
      return .ofOperation operation unchanged :: entries

theorem runFrom_of_not_fired {backend : Backend σ} {token : Token} {observer : Observer σ}
    {world : World σ} (quiet : world.hasFired token = false) (total index : Nat)
    (operation : Operation) (others : List Operation) :
    runFrom backend token root observer total index (operation :: others) world =
      carryOn backend token root observer total index operation others world := by
  rw [runFrom, run_bind]
  change (if world.hasFired token = true then _ else _ : Build σ _) world = _
  rw [quiet, if_neg Bool.false_ne_true]
  rfl

theorem carryOn_follows {total index : Nat} {others : List Operation}
    (follows : parties.Follows (fun _ => True) (FailsAs (BuildError.IsOf .running))
      (runFrom parties.backend parties.token root parties.observer total (index + 1) others)
      (runFrom parties.backend.traced parties.token root
        (parties.observer.traced parties.token) total (index + 1) others))
    (operation : Operation) :
    parties.Follows (fun _ => True) (FailsAs (BuildError.IsOf .running))
      (carryOn parties.backend parties.token root parties.observer total index operation others)
      (carryOn parties.backend.traced parties.token root
        (parties.observer.traced parties.token) total index operation others) := by
  refine .bind (.told _) fun _ => .bind (.attempt (apply_follows parties root operation))
    fun answer => ?_
  cases answer with
  | error fault =>
      exact .bind (noteFault_follows parties operation fault) fun _ =>
        .error (errorOf_isOf index operation fault)
  | ok unchanged => exact .bind (.told _) fun _ => .bind follows fun _ => .ok _

theorem runFrom_follows (total index : Nat) (operations : List Operation) :
    parties.Follows (fun _ => True) (FailsAs (BuildError.IsOf .running))
      (runFrom parties.backend parties.token root parties.observer total index operations)
      (runFrom parties.backend.traced parties.token root
        (parties.observer.traced parties.token) total index operations) := by
  induction operations generalizing index with
  | nil => exact .ok []
  | cons operation others ih =>
      intro world
      have known (trace : List TraceEvent) :
          (world.traced trace).hasFired parties.token = world.hasFired parties.token := rfl
      cases fired : world.hasFired parties.token with
      | true =>
          rw [runFrom_cons, fired, if_pos rfl]
          refine ⟨[], fun trace => ?_, ?_, List.forall_mem_nil _, ?_⟩
          · rw [runFrom_cons, known, fired, if_pos rfl, List.append_nil]
            rfl
          · exact @Parties.Leads.own _ _ _ (world.note .warning _) _ _ rfl rfl (.nothing _)
          · intro error same
            cases same
            rfl
      | false =>
          obtain ⟨added, same, rest⟩ := carryOn_follows parties root (ih (index + 1)) operation world
          rw [runFrom_of_not_fired root fired]
          refine ⟨added, fun trace => ?_, rest⟩
          rw [runFrom_of_not_fired root ((known trace).trans fired), same]

theorem run_follows (version : Option String) (operations : List Operation) :
    parties.Follows (fun _ => True) (FailsAs (BuildError.IsOf .running))
      (run parties.backend parties.token root parties.observer version operations)
      (run parties.backend.traced parties.token root (parties.observer.traced parties.token)
        version operations) :=
  .bind (.told _) fun _ => .bind (runFrom_follows parties root _ 0 operations) fun _ =>
    .bind (.told _) fun _ => .ok _

end Run

end SourceRecipe
