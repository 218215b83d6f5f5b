import SourceRecipe.Proofs.Git.Commands
import SourceRecipe.Proofs.Git.Location

/-!
# Bringing mirrors up to date

To bring a mirror up to date is one command: a fetch where there is a mirror, a clone where there is
none.  `Refreshes` lists how it can end.  Only a command that did its work is counted, and a clone
that failed leaves no mirror.
-/

namespace SourceRecipe.Git

variable {ε : Type}

/-- The file that tells that there is a mirror of a location. -/
def mirrorHead (options : Options) (location : String) : Path :=
  (mirrorPath options location).join ⟨"HEAD"⟩

def refreshCommand (options : Options) (location : String) (files : FileTree) : Command :=
  if files.has (mirrorHead options location) then
    gitCommand options (some (mirrorPath options location))
      ["fetch", "--quiet", "--prune", "--tags", "origin"]
  else
    gitCommand options none
      ["clone", "--quiet", "--mirror", address location, (mirrorPath options location).text]

/-- The files as that command finds them: a clone is given a directory for mirrors. -/
def readied (options : Options) (location : String) (files : FileTree) : FileTree :=
  if files.has (mirrorHead options location) then files
  else ((FileWork.makeDirectories options.cache).run files).2

/-- The files when that command has failed: what a clone has made of the mirror is dropped. -/
def cleared (options : Options) (location : String) (files left : FileTree) : FileTree :=
  if files.has (mirrorHead options location) then left
  else left.removeDirectory (mirrorPath options location)

/-- How bringing the mirror of a location up to date can end: the commands that it started, its
answer, and the world after it. -/
inductive Refreshes (options : Options) (token : Token) (location : String)
    (before : World (Mirrors ε)) :
    List Started → Except Fault Unit → World (Mirrors ε) → Prop
  /-- The token had fired. -/
  | cancelled {after} (fired : before.hasFired token = true) (kept : after.store = before.store) :
      Refreshes options token location before [] (.error .cancelled) after
  /-- There was no mirror, and no directory could be made for it. -/
  | homeless {error after} (missing : before.files.has (mirrorHead options location) = false)
      (failed : ((FileWork.makeDirectories options.cache).run before.files).1 = .error error)
      (kept : after.store = before.store) :
      Refreshes options token location before [] (.error (fileFault error)) after
  /-- The command failed. -/
  | failed {one fault after} (command : one.command = refreshCommand options location before.files)
      (found : one.before = readied options location before.files)
      (faulty : one.fault? location = some fault)
      (kept : after.store.fetched = before.store.fetched)
      (left : after.files = cleared options location before.files one.after)
      (gone : before.files.has (mirrorHead options location) = false →
        after.files.hasDirectory (mirrorPath options location) = false) :
      Refreshes options token location before [one] (.error fault) after
  /-- The command did its work. -/
  | done {one after} (command : one.command = refreshCommand options location before.files)
      (found : one.before = readied options location before.files)
      (succeeded : one.succeeded = true)
      (counted : after.store.fetched = address location :: before.store.fetched)
      (left : after.files = one.after) :
      Refreshes options token location before [one] (.ok ()) after

namespace Refreshes

variable {options : Options} {token : Token} {location : String} {before after : World (Mirrors ε)}
  {started : List Started}

/-- What has failed does not count. -/
theorem of_error {fault : Fault}
    (refreshes : Refreshes options token location before started (.error fault) after) :
    after.store.fetched = before.store.fetched ∧ ∀ one ∈ started, one.succeeded = false := by
  cases refreshes with
  | cancelled fired kept => exact ⟨by rw [kept], fun _ member => absurd member List.not_mem_nil⟩
  | homeless missing failed kept =>
      exact ⟨by rw [kept], fun _ member => absurd member List.not_mem_nil⟩
  | failed command found faulty kept left gone =>
      refine ⟨kept, fun one member => ?_⟩
      rw [List.mem_singleton.mp member, ← Bool.not_eq_true, ← Started.fault?_eq_none_iff, faulty]
      exact Option.some_ne_none _

/-- What has succeeded is one command, and counts. -/
theorem of_ok (refreshes : Refreshes options token location before started (.ok ()) after) :
    after.store.fetched = address location :: before.store.fetched ∧
      ∃ one, started = [one] ∧ one.command = refreshCommand options location before.files ∧
        one.succeeded = true := by
  cases refreshes with
  | done command found succeeded counted left => exact ⟨counted, _, rfl, command, succeeded⟩

end Refreshes

section

variable (shell : Shell ε) (options : Options) (token : Token) (location : String)
  {world : World (Mirrors ε)}

/-- A world in which the mirror of a location counts among those that were brought up to date. -/
def counted (world : World (Mirrors ε)) : World (Mirrors ε) :=
  { world with
    store := { world.store with fetched := address location :: world.store.fetched } }

def count : Call (Mirrors ε) Unit :=
  modify (counted location)

theorem refresh_of_present (present : world.files.has (mirrorHead options location) = true) :
    refresh shell options token location world =
      (runChecked shell options token location (some (mirrorPath options location))
        ["fetch", "--quiet", "--prune", "--tags", "origin"] >>= fun _ => count location) world := by
  rw [refresh, run_bind]
  change (if world.files.has (mirrorHead options location) then _ else _ :
    Call (Mirrors ε) Unit) world = _
  rw [if_pos present, run_bind, run_bind]
  rfl

theorem refresh_of_missing (missing : world.files.has (mirrorHead options location) = false) :
    refresh shell options token location world =
      (makeMirror shell options token location >>= fun _ => count location) world := by
  rw [refresh, run_bind]
  change (if world.files.has (mirrorHead options location) then _ else _ :
    Call (Mirrors ε) Unit) world = _
  rw [missing, if_neg Bool.false_ne_true]
  rfl

def drop (path : Path) : Call (Mirrors ε) Unit :=
  modify fun world => { world with files := world.files.removeDirectory path }

theorem makeMirror_eq :
    makeMirror shell options token location =
      (makeCache options >>= fun _ =>
        tryCatch
          (runChecked shell options token location none
            ["clone", "--quiet", "--mirror", address location,
              (mirrorPath options location).text] >>= fun _ => pure ())
          fun fault => drop (mirrorPath options location) >>= fun _ => throw fault) :=
  rfl

theorem count_goes (world : World (Mirrors ε)) :
    Goes (count location) (count location) world [] (.ok ()) (counted location world) :=
  .nothing rfl fun _ => rfl

theorem drop_goes (path : Path) (fault : Fault) (world : World (Mirrors ε)) :
    Goes (drop path >>= fun _ => throw fault : Call (Mirrors ε) Unit)
      (drop path >>= fun _ => throw fault) world [] (.error fault)
      { world with files := world.files.removeDirectory path } :=
  .nothing rfl fun _ => rfl

/-- A mirror that is there is brought up to date by the fetch in it. -/
theorem refresh_goes_of_present (present : world.files.has (mirrorHead options location) = true) :
    ∃ started answer after,
      Goes (refresh shell options token location) (refresh shell.logged options token location)
        world started answer after ∧
      Refreshes options token location world started answer after := by
  have same := refresh_of_present shell options token location present
  have sameLogged log :=
    @refresh_of_present _ shell.logged options token location (withLog log world) present
  have command : refreshCommand options location world.files =
      gitCommand options (some (mirrorPath options location))
        ["fetch", "--quiet", "--prune", "--tags", "origin"] := by
    rw [refreshCommand, if_pos present]
  have ready : readied options location world.files = world.files := by
    rw [readied, if_pos present]
  have clear (left : FileTree) : cleared options location world.files left = left := by
    rw [cleared, if_pos present]
  obtain ⟨started, answer, after, goes, runs⟩ :=
    runChecked_goes shell options token location (some (mirrorPath options location))
      ["fetch", "--quiet", "--prune", "--tags", "origin"] world
  cases runs with
  | cancelled fired => exact ⟨_, _, _, goes.bind_error.congr same sameLogged, .cancelled fired rfl⟩
  | failed issued found left kept faulty =>
      refine ⟨_, _, _, goes.bind_error.congr same sameLogged,
        .failed (issued.trans command.symm) (found.trans ready.symm) faulty kept
          (left.trans (clear _).symm) fun missing => ?_⟩
      rw [present] at missing
      cases missing
  | done issued found left kept succeeded =>
      refine ⟨_, .ok (), counted location after,
        (goes.bind_silent (count_goes location after)).congr same sameLogged,
        .done (issued.trans command.symm) (found.trans ready.symm) succeeded ?_ left⟩
      exact congrArg (address location :: ·) kept

/-- The directory of the mirrors is made without a command. -/
theorem makeCache_goes (world : World (Mirrors ε)) :
    Goes (makeCache options) (makeCache options) world []
      (((FileWork.makeDirectories options.cache).run world.files).1.mapError fileFault)
      { world with files := ((FileWork.makeDirectories options.cache).run world.files).2 } :=
  .nothing rfl fun _ => rfl

section

variable {made : Unit} {started : List Started} {between : World (Mirrors ε)}
  (making : Goes (makeCache options) (makeCache options) world [] (.ok made) between)

include making

/-- A clone that fails is dropped. -/
theorem makeMirror_goes_of_error {fault : Fault} {after : World (Mirrors ε)}
    (goes : Goes
      (runChecked shell options token location none
        ["clone", "--quiet", "--mirror", address location, (mirrorPath options location).text])
      (runChecked shell.logged options token location none
        ["clone", "--quiet", "--mirror", address location, (mirrorPath options location).text])
      between started (.error fault) after) :
    Goes (makeMirror shell options token location) (makeMirror shell.logged options token location)
      world started (.error fault)
      { after with files := after.files.removeDirectory (mirrorPath options location) } := by
  rw [makeMirror_eq, makeMirror_eq]
  change Goes _ _ world ([] ++ started) _ _
  refine making.bind_ok ?_
  exact goes.bind_error.tryCatch_error (drop_goes _ fault after)

theorem makeMirror_goes_of_ok {reply : Reply} {after : World (Mirrors ε)}
    (goes : Goes
      (runChecked shell options token location none
        ["clone", "--quiet", "--mirror", address location, (mirrorPath options location).text])
      (runChecked shell.logged options token location none
        ["clone", "--quiet", "--mirror", address location, (mirrorPath options location).text])
      between started (.ok reply) after) :
    Goes (makeMirror shell options token location) (makeMirror shell.logged options token location)
      world started (.ok ()) after := by
  have done : Goes (pure () : Call (Mirrors ε) Unit) (pure ()) after [] (.ok ()) after :=
    .nothing rfl fun _ => rfl
  rw [makeMirror_eq, makeMirror_eq]
  change Goes _ _ world ([] ++ started) _ _
  refine making.bind_ok ?_
  exact (goes.bind_silent done).tryCatch_ok

end

/-- A mirror that is missing is cloned, and dropped again when that fails. -/
theorem refresh_goes_of_missing (missing : world.files.has (mirrorHead options location) = false) :
    ∃ started answer after,
      Goes (refresh shell options token location) (refresh shell.logged options token location)
        world started answer after ∧
      Refreshes options token location world started answer after := by
  have same := refresh_of_missing shell options token location missing
  have sameLogged log :=
    @refresh_of_missing _ shell.logged options token location (withLog log world) missing
  have absent : ¬ world.files.has (mirrorHead options location) = true := by
    rw [missing]
    exact Bool.false_ne_true
  have command : refreshCommand options location world.files =
      gitCommand options none ["clone", "--quiet", "--mirror", address location,
        (mirrorPath options location).text] := by
    rw [refreshCommand, if_neg absent]
  have ready : readied options location world.files =
      ((FileWork.makeDirectories options.cache).run world.files).2 := by
    rw [readied, if_neg absent]
  have clear (left : FileTree) : cleared options location world.files left =
      left.removeDirectory (mirrorPath options location) := by
    rw [cleared, if_neg absent]
  have making := makeCache_goes options world
  cases made : ((FileWork.makeDirectories options.cache).run world.files).1 with
  | error error =>
      rw [made] at making
      have homeless : Goes (makeMirror shell options token location)
          (makeMirror shell.logged options token location) world [] (.error (fileFault error)) _ :=
        making.bind_error
      exact ⟨_, _, _, homeless.bind_error.congr same sameLogged, .homeless missing made rfl⟩
  | ok done =>
      rw [made] at making
      obtain ⟨started, answer, after, goes, runs⟩ :=
        runChecked_goes shell options token location none
          ["clone", "--quiet", "--mirror", address location, (mirrorPath options location).text]
          { world with files := ((FileWork.makeDirectories options.cache).run world.files).2 }
      cases runs with
      | cancelled fired =>
          have dropped := makeMirror_goes_of_error shell options token location making goes
          exact ⟨_, _, _, dropped.bind_error.congr same sameLogged, .cancelled fired rfl⟩
      | failed issued found left kept faulty =>
          have dropped := makeMirror_goes_of_error shell options token location making goes
          refine ⟨_, _, _, dropped.bind_error.congr same sameLogged,
            .failed (issued.trans command.symm) (found.trans ready.symm) faulty kept ?_ fun _ => ?_⟩
          · rw [clear, ← left]
          · dsimp only
            exact hasDirectory_removeMirror options location _
      | done issued found left kept succeeded =>
          have whole := makeMirror_goes_of_ok shell options token location making goes
          refine ⟨_, .ok (), counted location after,
            (whole.bind_silent (count_goes location after)).congr same sameLogged,
            .done (issued.trans command.symm) (found.trans ready.symm) succeeded ?_ left⟩
          exact congrArg (address location :: ·) kept

variable (world)

/-- Bringing a mirror up to date ends in one of the ways that are listed. -/
theorem refresh_goes :
    ∃ started answer after,
      Goes (refresh shell options token location) (refresh shell.logged options token location)
        world started answer after ∧
      Refreshes options token location world started answer after := by
  cases present : world.files.has (mirrorHead options location) with
  | true => exact refresh_goes_of_present shell options token location present
  | false => exact refresh_goes_of_missing shell options token location present

end

end SourceRecipe.Git
