import SourceRecipe.Git.Playback
import SourceRecipe.Proofs.Git.Refreshing
import SourceRecipe.Proofs.Git.Targets

/-!
# Sessions

A session is a sequence of calls on one system, with anything happening between them but the
counting of mirrors.  `Visit.IsFresh` says what a call may do about its mirror, and follows for
each call of a session from one step: a visit counts exactly the mirror that it has brought up to
date.
-/

namespace SourceRecipe.Git

variable {ε α β : Type}

/-! ## Calls that bring nothing up to date -/

def Command.isRefresh (command : Command) : Bool :=
  ["fetch", "--quiet", "--prune"].isPrefixOf command.arguments ||
    ["clone", "--quiet", "--mirror"].isPrefixOf command.arguments

theorem refreshCommand_isRefresh (options : Options) (location : String) (files : FileTree) :
    (refreshCommand options location files).isRefresh = true := by
  rw [refreshCommand]
  split <;> rfl

/-- Whether a call brings no mirror up to date in any world. -/
def Spares (call : Call (Mirrors ε) α) (logged : Call (Mirrors (Logged ε)) α) : Prop :=
  ∀ world, ∃ started answer after, Goes call logged world started answer after ∧
    (∀ one ∈ started, one.command.isRefresh = false) ∧
    after.store.fetched = world.store.fetched

namespace Spares

theorem pure (given : α) : Spares (ε := ε) (Pure.pure given) (Pure.pure given) :=
  fun _ => ⟨[], _, _, .nothing rfl fun _ => rfl, fun _ member => absurd member List.not_mem_nil, rfl⟩

theorem throw (fault : Fault) :
    Spares (ε := ε) (α := α) (MonadExcept.throw fault) (MonadExcept.throw fault) :=
  fun _ => ⟨[], _, _, .nothing rfl fun _ => rfl, fun _ member => absurd member List.not_mem_nil, rfl⟩

theorem bind {call : Call (Mirrors ε) α} {logged : Call (Mirrors (Logged ε)) α}
    {next : α → Call (Mirrors ε) β} {nextLogged : α → Call (Mirrors (Logged ε)) β}
    (first : Spares call logged) (second : ∀ given, Spares (next given) (nextLogged given)) :
    Spares (call >>= next) (logged >>= nextLogged) := by
  intro world
  obtain ⟨started, answer, between, goes, clean, kept⟩ := first world
  cases answer with
  | error fault => exact ⟨_, _, _, goes.bind_error, clean, kept⟩
  | ok given =>
      obtain ⟨more, answer, after, goesOn, cleanOn, keptOn⟩ := second given between
      refine ⟨_, _, _, goes.bind_ok goesOn, fun one member => ?_, keptOn.trans kept⟩
      rcases List.mem_append.mp member with early | late
      · exact clean one early
      · exact cleanOn one late

section

variable (shell : Shell ε) (options : Options) (token : Token) (location : String)
  {directory : Option Path} {arguments : List String}

theorem run (other : (gitCommand options directory arguments).isRefresh = false) :
    Spares (run shell options token directory arguments)
      (run shell.logged options token directory arguments) := by
  intro world
  obtain ⟨started, answer, after, goes, runs⟩ :=
    run_goes shell options token directory arguments world
  refine ⟨started, answer, after, goes, ?_⟩
  cases runs with
  | cancelled fired => exact ⟨fun _ member => absurd member List.not_mem_nil, rfl⟩
  | issued quiet issued found left kept =>
      refine ⟨fun one member => ?_, kept⟩
      rw [List.mem_singleton.mp member, issued]
      exact other

theorem runChecked (other : (gitCommand options directory arguments).isRefresh = false) :
    Spares (runChecked shell options token location directory arguments)
      (runChecked shell.logged options token location directory arguments) := by
  refine (run shell options token other).bind fun reply => ?_
  cases reply.succeeded with
  | true => exact .pure _
  | false => exact (throw _).bind fun _ => .pure _

theorem commitId? (mirror : Path) (name : String) :
    Spares (commitId? shell options token mirror name)
      (commitId? shell.logged options token mirror name) :=
  (run shell options token rfl).bind fun _ => .pure _

theorem isAncestor (directory : Path) (ancestor descendant : String) :
    Spares (isAncestor shell options token directory ancestor descendant)
      (isAncestor shell.logged options token directory ancestor descendant) := by
  refine (run shell options token rfl).bind fun reply => ?_
  match reply.code with
  | 0 => exact .pure _
  | 1 => exact .pure _
  | _ + 2 => exact .throw _

theorem tipIn (mirror : Path) :
    Spares (tipIn shell options token mirror location)
      (tipIn shell.logged options token mirror location) := by
  refine (commitId? shell options token mirror _).bind fun id => ?_
  cases id with
  | none => exact .throw _
  | some id => exact .pure _

theorem findIn (mirror : Path) (specifier : Specifier) :
    Spares (findIn shell options token mirror location specifier)
      (findIn shell.logged options token mirror location specifier) := by
  cases specifier with
  | tip => exact (tipIn shell options token location mirror).bind fun _ => .pure _
  | revision id =>
      refine (tipIn shell options token location mirror).bind fun tip => ?_
      refine (commitId? shell options token mirror id).bind fun found => ?_
      cases found with
      | none => exact .pure _
      | some full => exact (isAncestor shell options token mirror full tip).bind fun _ => .pure _
  | tag name => exact commitId? shell options token mirror _
  | date limit =>
      refine (tipIn shell options token location mirror).bind fun tip => ?_
      exact (runChecked shell options token location rfl).bind fun _ => .pure _

theorem conflictsIn (tree : Path) :
    Spares (conflictsIn shell options token tree) (conflictsIn shell.logged options token tree) :=
  (run shell options token rfl).bind fun _ => .pure _

end

end Spares

/-! ## Calls -/

inductive Request where
  | lookup (token : Token) (location : String) (specifier : Specifier)
  | checkout (token : Token) (location revision : String) (target : Path)
  | merge (token : Token) (tree : Path) (location revision message : String)
  | revno (token : Token) (location revision : String)

namespace Request

abbrev Answer : Request → Type
  | lookup .. => String
  | checkout .. => Unit
  | merge .. => MergeOutcome
  | revno .. => Option Nat

def token : Request → Token
  | lookup token .. | checkout token .. | merge token .. | revno token .. => token

def location : Request → String
  | lookup _ location _ | checkout _ location .. | merge _ _ location .. | revno _ location _ =>
      location

/-- Whether a call asks for a revision as it is now. -/
def isLookup : Request → Bool
  | lookup .. => true
  | _ => false

def call (shell : Shell ε) (options : Options) :
    (request : Request) → Call (Mirrors ε) request.Answer
  | lookup token location specifier => (backend shell options).lookup token location specifier
  | checkout token location revision target =>
      (backend shell options).checkout token location revision target
  | merge token tree location revision message =>
      (backend shell options).merge token tree location revision message
  | revno token location revision => (backend shell options).revno token location revision

/-- The fault by which a call is refused for the directory it is to work in. -/
def refusal? (files : FileTree) : Request → Option Fault
  | checkout _ _ _ target => targetFault? files target
  | merge _ tree _ _ _ => if files.has (tree.join ⟨".git"⟩) then none else some (.noWorkingTree tree)
  | _ => none

def check (request : Request) : Call (Mirrors ε) Unit := fun world =>
  (match request.refusal? world.files with
    | some fault => .error fault
    | none => .ok (), world)

/-- The mirror that a call works with: that of a look-up is brought up to date in any case. -/
def mirror (shell : Shell ε) (options : Options) (request : Request) : Call (Mirrors ε) Path :=
  if request.isLookup then freshMirror shell options request.token request.location
  else cachedMirror shell options request.token request.location

def rest (shell : Shell ε) (options : Options) (mirror : Path) :
    (request : Request) → Call (Mirrors ε) request.Answer
  | lookup token location specifier => do
      match ← findIn shell options token mirror location specifier with
      | some id => return id
      | none => throw (.revisionNotFound location specifier.sought)
  | checkout token location revision target => do
      let _ ← runChecked shell options token location none
        ["clone", "--quiet", "--no-checkout", mirror.text, target.text]
      let _ ← runChecked shell options token location (some target)
        ["checkout", "--quiet", "--detach", revision]
  | merge token tree location revision message => do
      let _ ← runChecked shell options token location (some tree)
        ["fetch", "--quiet", "--no-tags", mirror.text,
          s!"+refs/*:refs/recipe/{mirrorName (address location)}/*"]
      if ← isAncestor shell options token tree revision "HEAD" then return .upToDate
      let reply ← run shell options token (some tree) (mergeArguments options revision message)
      if reply.succeeded then return .merged
      let paths ← conflictsIn shell options token tree
      let _ ← run shell options token (some tree) ["merge", "--abort"]
      if paths.isEmpty then
        throw (.ofGitOutput reply.errorText location (some tree))
      throw (.conflict location paths)
  | revno token _ revision => do
      let reply ← run shell options token (some mirror)
        ["rev-list", "--count", "--first-parent", revision]
      return if reply.succeeded then reply.number? else none

variable (shell : Shell ε) (options : Options)

/-- A call looks at its directory, asks for its mirror, and works with it. -/
theorem call_eq (request : Request) :
    request.call shell options =
      (request.check >>= fun _ => request.mirror shell options >>= fun mirror =>
        request.rest shell options mirror) := by
  cases request with
  | lookup token location specifier =>
      have passes : (lookup token location specifier).check = (pure () : Call (Mirrors ε) Unit) := rfl
      rw [passes, pure_bind]
      rfl
  | revno token location revision =>
      have passes : (revno token location revision).check = (pure () : Call (Mirrors ε) Unit) := rfl
      rw [passes, pure_bind]
      rfl
  | checkout token location revision target =>
      funext world
      rw [run_bind]
      change (needEmpty target >>= _) world = _
      rw [run_bind, needEmpty_run]
      rfl
  | merge token tree location revision message =>
      funext world
      rw [run_bind, check, refusal?]
      change (Git.merge shell options token tree location revision message) world = _
      rw [Git.merge, run_bind]
      change (if !world.files.has (tree.join ⟨".git"⟩) then _ else _ :
        Call (Mirrors ε) MergeOutcome) world = _
      cases world.files.has (tree.join ⟨".git"⟩) with
      | true => rfl
      | false => rfl

/-- Once it has its mirror, a call brings none up to date. -/
theorem rest_spares (mirror : Path) (request : Request) :
    Spares (request.rest shell options mirror) (request.rest shell.logged options mirror) := by
  cases request with
  | lookup token location specifier =>
      refine (Spares.findIn shell options token location mirror specifier).bind fun found => ?_
      cases found with
      | none => exact .throw _
      | some id => exact .pure _
  | checkout token location revision target =>
      exact (Spares.runChecked shell options token location rfl).bind fun _ =>
        (Spares.runChecked shell options token location rfl).bind fun _ => .pure _
  | merge token tree location revision message =>
      refine (Spares.runChecked shell options token location rfl).bind fun _ => ?_
      refine (Spares.isAncestor shell options token tree revision "HEAD").bind fun known => ?_
      cases known with
      | true => exact .pure _
      | false =>
          refine (Spares.run shell options token rfl).bind fun reply => ?_
          cases reply.succeeded with
          | true => exact .pure _
          | false =>
              refine (Spares.conflictsIn shell options token tree).bind fun paths => ?_
              refine (Spares.run shell options token rfl).bind fun _ => ?_
              cases paths with
              | nil => exact (Spares.throw _).bind fun _ => .throw _
              | cons path others => exact .throw _
  | revno token location revision => exact (Spares.run shell options token rfl).bind fun _ => .pure _

theorem check_goes (request : Request) (world : World (Mirrors ε)) :
    Goes request.check request.check world []
      (match request.refusal? world.files with
        | some fault => .error fault
        | none => .ok ())
      world :=
  .nothing rfl fun _ => rfl

/-- Whether a call needs its mirror brought up to date, when these were. -/
def IsDue (request : Request) (fetched : List String) : Prop :=
  request.isLookup = true ∨ address request.location ∉ fetched

variable {request : Request} {world : World (Mirrors ε)}

theorem mirror_of_due (due : request.IsDue world.store.fetched) :
    request.mirror shell options world =
      (refresh shell options request.token request.location >>= fun _ =>
        pure (mirrorPath options request.location)) world := by
  rw [mirror]
  split
  · rfl
  · rename_i other
    have new : address request.location ∉ world.store.fetched := due.resolve_left other
    rw [cachedMirror, run_bind]
    change (if address request.location ∉ world.store.fetched then _ else _ :
      Call (Mirrors ε) Path) world = _
    rw [if_pos new]

theorem mirror_of_content (content : ¬ request.IsDue world.store.fetched) :
    request.mirror shell options world = (.ok (mirrorPath options request.location), world) := by
  obtain ⟨other, known⟩ := not_or.mp content
  rw [mirror, if_neg other, cachedMirror, run_bind]
  change (if address request.location ∉ world.store.fetched then _ else _ :
    Call (Mirrors ε) Path) world = _
  rw [if_neg known]
  rfl

/-- A mirror that is to be brought up to date is had when that is done. -/
theorem mirror_goes_of_due (due : request.IsDue world.store.fetched) {started : List Started}
    {answer : Except Fault Unit} {after : World (Mirrors ε)}
    (refreshing : Goes (refresh shell options request.token request.location)
      (refresh shell.logged options request.token request.location) world started answer after) :
    Goes (request.mirror shell options) (request.mirror shell.logged options) world started
      (answer.map fun _ => mirrorPath options request.location) after := by
  have same := request.mirror_of_due shell options due
  have sameLogged log :=
    @Request.mirror_of_due _ shell.logged options request (withLog log world) due
  cases answer with
  | error fault => exact refreshing.bind_error.congr same sameLogged
  | ok done => exact (refreshing.bind_silent (.nothing rfl fun _ => rfl)).congr same sameLogged

/-- Another mirror is had without a command. -/
theorem mirror_goes_of_content (content : ¬ request.IsDue world.store.fetched) :
    Goes (request.mirror shell options) (request.mirror shell.logged options) world []
      (.ok (mirrorPath options request.location)) world :=
  .nothing (request.mirror_of_content shell options content) fun log =>
    @Request.mirror_of_content _ shell.logged options request (withLog log world) content

end Request

/-! ## Visits -/

/-- A call that was made in a world: the commands that it started, its answer, and the world after
it. -/
structure Visit (ε : Type) where
  request : Request
  before : World (Mirrors ε)
  started : List Started
  answer : Except Fault request.Answer
  after : World (Mirrors ε)

namespace Visit

def make (shell : Shell ε) (options : Options) (request : Request) (before : World (Mirrors ε)) :
    Visit ε where
  request
  before
  started := commandsOf (request.call shell.logged options) before
  answer := (request.call shell options before).1
  after := (request.call shell options before).2

def address (visit : Visit ε) : String := Git.address visit.request.location

def refreshed (visit : Visit ε) : Bool :=
  visit.started.any fun one => one.command.isRefresh && one.succeeded

/-- What a visit comes to, where `due` says whether its mirror is to be brought up to date. -/
inductive IsFresh (options : Options) (due : Prop) (visit : Visit ε) : Prop
  /-- The call was refused for its directory. -/
  | refused {fault} (refusal : visit.request.refusal? visit.before.files = some fault)
      (idle : visit.started = []) (answered : visit.answer = .error fault)
      (kept : visit.after = visit.before)
  /-- Its mirror could not be brought up to date, and that was all. -/
  | stopped {fault} (passed : visit.request.refusal? visit.before.files = none) (isDue : due)
      (refreshes : Refreshes options visit.request.token visit.request.location visit.before
        visit.started (.error fault) visit.after)
      (answered : visit.answer = .error fault)
  /-- Its mirror was brought up to date, and none after it. -/
  | renewed {first rest between} (passed : visit.request.refusal? visit.before.files = none)
      (isDue : due)
      (refreshes : Refreshes options visit.request.token visit.request.location visit.before
        first (.ok ()) between)
      (started : visit.started = first ++ rest)
      (clean : ∀ one ∈ rest, one.command.isRefresh = false)
      (kept : visit.after.store.fetched = between.store.fetched)
  /-- No mirror was to be brought up to date, and none was. -/
  | content (passed : visit.request.refusal? visit.before.files = none) (notDue : ¬ due)
      (clean : ∀ one ∈ visit.started, one.command.isRefresh = false)
      (kept : visit.after.store.fetched = visit.before.store.fetched)

theorem make_of_goes {shell : Shell ε} {options : Options} {request : Request}
    {world after : World (Mirrors ε)} {started : List Started} {answer : Except Fault request.Answer}
    (goes : Goes (request.call shell options) (request.call shell.logged options) world started
      answer after) :
    make shell options request world = ⟨request, world, started, answer, after⟩ := by
  rw [make, goes.ran, goes.commandsOf_eq]

/-- A call that passes its own check goes as its mirror and its work do. -/
theorem make_isFresh (shell : Shell ε) (options : Options) (request : Request)
    (world : World (Mirrors ε)) :
    (make shell options request world).IsFresh options (request.IsDue world.store.fetched) := by
  have whole := request.call_eq shell options
  have wholeLogged := request.call_eq shell.logged options
  have looked := request.check_goes world
  cases refusal : request.refusal? world.files with
  | some fault =>
      rw [refusal] at looked
      have goes : Goes (request.call shell options) (request.call shell.logged options) world []
          (.error fault) world := by
        rw [whole, wholeLogged]
        exact looked.bind_error
      rw [make_of_goes goes]
      exact .refused refusal rfl rfl rfl
  | none =>
      rw [refusal] at looked
      by_cases due : request.IsDue world.store.fetched
      · obtain ⟨first, answer, between, refreshing, refreshes⟩ :=
          refresh_goes shell options request.token request.location world
        have getting := request.mirror_goes_of_due shell options due refreshing
        cases answer with
        | error fault =>
            have goes : Goes (request.call shell options) (request.call shell.logged options) world
                first (.error fault) between := by
              rw [whole, wholeLogged]
              exact looked.bind_ok getting.bind_error
            rw [make_of_goes goes]
            exact .stopped refusal due refreshes rfl
        | ok done =>
            obtain ⟨rest, answer, after, working, clean, kept⟩ :=
              request.rest_spares shell options (mirrorPath options request.location) between
            have goes : Goes (request.call shell options) (request.call shell.logged options) world
                (first ++ rest) answer after := by
              rw [whole, wholeLogged]
              exact looked.bind_ok (getting.bind_ok working)
            rw [make_of_goes goes]
            exact .renewed refusal due refreshes rfl clean kept
      · obtain ⟨rest, answer, after, working, clean, kept⟩ :=
          request.rest_spares shell options (mirrorPath options request.location) world
        have goes : Goes (request.call shell options) (request.call shell.logged options) world rest
            answer after := by
          rw [whole, wholeLogged]
          exact looked.bind_ok
            ((request.mirror_goes_of_content shell options due).bind_ok working)
        rw [make_of_goes goes]
        exact .content refusal due clean kept

theorem refreshed_of_clean {visit : Visit ε}
    (clean : ∀ one ∈ visit.started, one.command.isRefresh = false) : visit.refreshed = false := by
  rw [refreshed, List.any_eq_false]
  intro one member
  rw [clean one member, Bool.false_and]
  exact Bool.false_ne_true

/-- A visit counts exactly the mirror that it has brought up to date. -/
theorem IsFresh.mem_fetched_iff {options : Options} {due : Prop} {visit : Visit ε}
    (isFresh : visit.IsFresh options due) (url : String) :
    url ∈ visit.after.store.fetched ↔
      url ∈ visit.before.store.fetched ∨ visit.refreshed = true ∧ visit.address = url := by
  have unchanged (kept : visit.after.store.fetched = visit.before.store.fetched)
      (none : visit.refreshed = false) :
      url ∈ visit.after.store.fetched ↔
        url ∈ visit.before.store.fetched ∨ visit.refreshed = true ∧ visit.address = url := by
    rw [kept, none]
    simp
  cases isFresh with
  | refused refusal idle answered kept =>
      refine unchanged (by rw [kept]) (refreshed_of_clean ?_)
      rw [idle]
      exact fun _ member => absurd member List.not_mem_nil
  | stopped passed isDue refreshes answered =>
      obtain ⟨kept, failed⟩ := refreshes.of_error
      refine unchanged kept ?_
      rw [refreshed, List.any_eq_false]
      intro one member
      rw [failed one member, Bool.and_false]
      exact Bool.false_ne_true
  | renewed passed isDue refreshes started clean kept =>
      obtain ⟨counted, one, rfl, command, succeeded⟩ := refreshes.of_ok
      have did : visit.refreshed = true := by
        rw [refreshed, started, List.any_append, List.any_cons, command, succeeded,
          refreshCommand_isRefresh]
        rfl
      rw [kept, counted, did, List.mem_cons, address]
      simp only [true_and]
      exact ⟨fun member => member.symm.imp_right Eq.symm,
        fun member => (member.imp_right Eq.symm).symm⟩
  | content passed notDue clean kept => exact unchanged kept (refreshed_of_clean clean)

end Visit

/-! ## Sessions -/

structure Turn (ε : Type) where
  meanwhile : World ε → World ε
  request : Request

/-- The world in which a turn finds itself: nobody else counts mirrors. -/
def Turn.start (turn : Turn ε) (world : World (Mirrors ε)) : World (Mirrors ε) :=
  let found := turn.meanwhile (world.withStore world.store.host)
  found.withStore { world.store with host := found.store }

def session (shell : Shell ε) (options : Options) : World (Mirrors ε) → List (Turn ε) → List (Visit ε)
  | _, [] => []
  | world, turn :: others =>
      let visit := Visit.make shell options turn.request (turn.start world)
      visit :: session shell options visit.after others

def opened (world : World ε) : World (Mirrors ε) :=
  world.withStore (.initial world.store)

/-- Whether one of some visits has brought the mirror of an address up to date. -/
def WasRefreshed (visits : List (Visit ε)) (url : String) : Prop :=
  ∃ visit ∈ visits, visit.refreshed = true ∧ visit.address = url

theorem wasRefreshed_concat (visits : List (Visit ε)) (visit : Visit ε) (url : String) :
    WasRefreshed (visits ++ [visit]) url ↔
      WasRefreshed visits url ∨ visit.refreshed = true ∧ visit.address = url := by
  simp only [WasRefreshed, List.mem_append, List.mem_singleton, or_and_right, exists_or,
    exists_eq_left]

/-- The mirrors that are counted are those that earlier visits have brought up to date. -/
theorem isFresh_of_session {shell : Shell ε} {options : Options} {turns : List (Turn ε)}
    {world : World (Mirrors ε)} (past : List (Visit ε)) {earlier later : List (Visit ε)}
    {visit : Visit ε} (counts : ∀ url, url ∈ world.store.fetched ↔ WasRefreshed past url)
    (made : session shell options world turns = earlier ++ visit :: later) :
    visit.IsFresh options
      (visit.request.isLookup = true ∨ ¬ WasRefreshed (past ++ earlier) visit.address) := by
  induction turns generalizing world past earlier with
  | nil => exact absurd made.symm (List.append_ne_nil_of_right_ne_nil _ (List.cons_ne_nil _ _))
  | cons turn others ih =>
      have fresh := Visit.make_isFresh shell options turn.request (turn.start world)
      rw [session] at made
      cases earlier with
      | nil =>
          obtain ⟨rfl, _⟩ := List.cons.inj made
          rw [List.append_nil, ← counts]
          exact fresh
      | cons first earlier =>
          obtain ⟨rfl, rest⟩ := List.cons.inj made
          have counted := ih (past ++ [Visit.make shell options turn.request (turn.start world)])
            (fun url => ?_) rest
          · rw [List.append_assoc] at counted
            exact counted
          · rw [fresh.mem_fetched_iff, wasRefreshed_concat, ← counts]
            rfl

/-- In every session, whatever its commands are answered and whatever happens between its calls, a
look-up brings its mirror up to date first, and another call that passes its own check does so
unless an earlier call has done it.  All branches of an address share one mirror. -/
theorem session_isFresh {shell : Shell ε} {options : Options} {world : World ε}
    {turns : List (Turn ε)} {earlier later : List (Visit ε)} {visit : Visit ε}
    (made : session shell options (opened world) turns = earlier ++ visit :: later) :
    visit.IsFresh options (visit.request.isLookup = true ∨ ¬ WasRefreshed earlier visit.address) ∧
      ∀ one other, DifferInBranch one other →
        address one = address other ∧ mirrorPath options one = mirrorPath options other := by
  constructor
  · refine isFresh_of_session [] (fun url => ?_) made
    constructor
    · exact fun member => absurd member List.not_mem_nil
    · rintro ⟨_, member, _⟩
      exact absurd member List.not_mem_nil
  · intro one other differ
    exact ⟨differ.address_eq, mirrorPath_eq differ.address_eq options⟩

/-! ### A session -/

def prints (line : String) : Prepared :=
  ⟨⟨0, line.toUTF8, .empty⟩, [], 0, false⟩

def cutOff : Prepared :=
  ⟨⟨128, .empty, "fatal: unable to access 'u': timed out".toUTF8⟩, [], 0, false⟩

def rehearsed (answers : List Prepared) : World Playback :=
  .initial ⟨answers, []⟩

def plainOptions : Options := ⟨Playback.program, ⟨"cache"⟩, "", ""⟩

def endless : Token := ⟨0, none⟩

/-- A branch is looked up, a sibling of it is checked out an hour later, and the address is looked
up when it cannot be reached. -/
def sampleTurns : List (Turn Playback) :=
  [⟨id, .lookup endless "u#dev" .tip⟩,
    ⟨World.pass (3600 * Signals.second), .checkout endless "u#main" "b1" ⟨"out"⟩⟩,
    ⟨id, .lookup endless "u" .tip⟩]

def sampleSession : List (Visit Playback) :=
  session Playback.answer plainOptions
    (opened (rehearsed [prints "", prints "d1", prints "", prints "", cutOff])) sampleTurns

theorem session_isFresh_sampleTurns :
    sampleSession.map
        (fun visit => (visit.refreshed, visit.started.map (·.command.arguments.take 3))) =
      [(true, [["clone", "--quiet", "--mirror"], ["rev-parse", "--verify", "--quiet"]]),
        (false, [["clone", "--quiet", "--no-checkout"], ["checkout", "--quiet", "--detach"]]),
        (false, [["fetch", "--quiet", "--prune"]])] ∧
      DifferInBranch "u#dev" "u#main" ∧
      ∃ earlier visit later, sampleSession = earlier ++ visit :: later ∧
        visit.request = .checkout endless "u#main" "b1" ⟨"out"⟩ ∧
        (visit.IsFresh plainOptions
            (visit.request.isLookup = true ∨ ¬ WasRefreshed earlier visit.address) ∧
          ∀ one other, DifferInBranch one other →
            address one = address other ∧
              mirrorPath plainOptions one = mirrorPath plainOptions other) := by
  refine ⟨by decide +kernel, ⟨"u", by decide, fun location among => .inr ?_⟩, ?_⟩
  · rcases among with rfl | rfl
    · exact ⟨"dev", by decide, by decide, rfl⟩
    · exact ⟨"main", by decide, by decide, rfl⟩
  · have split : sampleSession = [_] ++ _ :: [_] := rfl
    exact ⟨_, _, _, split, rfl, session_isFresh split⟩

end SourceRecipe.Git
