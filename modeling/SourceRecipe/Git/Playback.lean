import SourceRecipe.Git.Command

/-!
# Played back answers

A shell that answers each command with the next of some prepared answers, and does to the file
system what a clone would do.  It knows the one program it stands for.
-/

namespace SourceRecipe.Git

/-- A prepared answer: what is printed, the files made on the way, the time it takes in
nanoseconds, and whether a clone makes nothing. -/
structure Prepared where
  reply : Reply
  touched : List Path
  span : Nat
  bare : Bool

/-- The answers to come, and the commands so far, each with the plain path of its directory. -/
structure Playback where
  answers : List Prepared
  commands : List Command

namespace Playback

def program : Path := ⟨"git"⟩

/-- The answer when none is prepared. -/
def exhausted : Prepared :=
  ⟨⟨128, .empty, "fatal: no scripted response".toUTF8⟩, [], 0, false⟩

def touch (files : FileTree) (path : Path) : FileTree :=
  let around := ((FileWork.makeParents path).run files).2
  if around.has path then around else ((FileWork.writeBytes path .empty).run around).2

/-- The path that a command without a directory of its own means. -/
def placed (command : Command) (path : Path) : Path :=
  match command.directory with
  | none => path
  | some directory => directory.join path

def clonedFile? (command : Command) : Option Path :=
  match command.arguments, command.arguments.getLast? with
  | "clone" :: _ :: kind :: _, some target =>
      some ((placed command ⟨target⟩).join ⟨if kind = "--mirror" then "HEAD" else ".git"⟩)
  | _, _ => none

def filesAfter (command : Command) (prepared : Prepared) (files : FileTree) : FileTree :=
  let files := prepared.touched.foldl touch files
  if prepared.reply.succeeded && !prepared.bare then
    match clonedFile? command with
    | some path => touch files path
    | none => files
  else files

/-- Lets time pass while a program runs, up to the deadline of a token. -/
def wait (token : Option Token) (span : Nat) : Call Playback Unit := do
  let signals := (← get).signals
  match token.bind signals.remaining? with
  | some left =>
      if left ≤ span then
        modify (World.pass left)
        throw .cancelled
      else modify (World.pass span)
  | none => modify (World.pass span)

/-- Whether no text that a command is given holds a character zero. -/
def isPassable (command : Command) : Bool :=
  (command.program.text :: command.arguments ++ (command.directory.map Path.text).toList).all
    fun text => !text.toList.contains '\x00'

def refusal? (files : FileTree) (command : Command) : Option FileError :=
  if !isPassable command then some .invalidPath
  else if command.program ≠ program then some .notFound
  else if command.directory.all files.hasDirectory then none
  else some .notFound

def answer (token : Option Token) (command : Command) : Call Playback Reply := do
  let world ← get
  if let some error := refusal? world.files command then
    throw (.notStarted command.program error)
  let prepared := world.store.answers.headD exhausted
  let seen := { command with directory := command.directory.map world.files.plain }
  let store : Playback := ⟨world.store.answers.tail, world.store.commands ++ [seen]⟩
  set { world with
    store
    files := filesAfter command prepared world.files }
  wait token prepared.span
  return prepared.reply

end Playback

end SourceRecipe.Git
