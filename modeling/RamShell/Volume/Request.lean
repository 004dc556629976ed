import RamShell.Volume.Skeleton
/-!
# RamShell.Volume.Request

Everything that can be asked of a volume as one type of requests, and what is answered as one
type of replies. A session with a volume is then a list of requests, and what holds of all
sessions is an induction over that list.
-/

namespace RamShell.Volume

/-- Something asked of a volume. -/
inductive Request
  /-- Make an empty file or directory. -/
  | create (path : String) (isDirectory : Bool)
  /-- Make a directory and what is missing on the way to it. -/
  | createDirs (path : String)
  /-- Replace the content of a file. -/
  | write (path : String) (bytes : Bytes)
  /-- Remove a file or an empty directory. -/
  | delete (path : String)
  /-- Replace permission bits. -/
  | setPermissions (path : String) (mode : UInt16)
  /-- Add the standard directories and files. -/
  | seed
  /-- Drop everything. -/
  | reset
  /-- Read a file into a buffer. -/
  | read (path : String) (buffer : Bytes)
  /-- Read the whole of a file. -/
  | readAll (path : String)
  /-- Ask whether a path names an entry. -/
  | contains (path : String)
  /-- Ask for a content length. -/
  | sizeAt (path : String)
  /-- Ask what a path names. -/
  | kindAt (path : String)
  /-- Ask for permissions as text. -/
  | permissionsAt (path : String)
  /-- Ask for a record. -/
  | stat (path : String)
  /-- List a directory. -/
  | list (dir : String)
  /-- List a directory into a buffer. -/
  | listPacked (dir : String) (buffer : Bytes)
  /-- Resolve a change of working directory. -/
  | changeDirectory (target cwd : String)
  /-- Ask for the parent of a working directory. -/
  | up (cwd : String)
  /-- Ask for usage figures. -/
  | usage
  deriving DecidableEq, Repr

/-- What a volume answers. -/
inductive Reply
  /-- Done, and nothing to tell. -/
  | done
  /-- Not done. -/
  | failed (e : Error)
  /-- Yes or no. -/
  | flag (b : Bool)
  /-- A number. -/
  | number (n : Nat)
  /-- A text. -/
  | text (s : String)
  /-- Names in order. -/
  | names (ns : List String)
  /-- File content. -/
  | content (bytes : Bytes)
  /-- How much was put into the caller's buffer, and the buffer. -/
  | filled (count : Nat) (buffer : Bytes)
  /-- A record. -/
  | record (e : Entry)
  /-- Usage figures. -/
  | figures (u : Usage)
  deriving DecidableEq, Repr

/-- The reply to a question that can fail. -/
def Reply.ofExcept {α : Type} (told : α → Reply) : Except Error α → Reply
  | .ok a => told a
  | .error e => .failed e

/-- The reply to a change, with the volume it leaves. -/
def Reply.ofResult (r : Result Unit) : Reply × Volume :=
  (.ofExcept (fun _ => .done) r.1, r.2)

/-- Answers a request. -/
def answer (v : Volume) : Request → Reply × Volume
  | .create path isDirectory => Reply.ofResult (v.create path isDirectory)
  | .createDirs path => Reply.ofResult (v.createDirs path)
  | .write path bytes => Reply.ofResult (v.write path bytes)
  | .delete path => Reply.ofResult (v.delete path)
  | .setPermissions path mode => Reply.ofResult (v.setPermissions path mode)
  | .seed => Reply.ofResult v.seed
  | .reset => (.done, v.reset)
  | .read path buffer => (.ofExcept (fun r => .filled r.1 r.2) (v.read path buffer), v)
  | .readAll path => (.ofExcept .content (v.readAll path), v)
  | .contains path => (.flag (v.contains path), v)
  | .sizeAt path => (.number (v.sizeAt path), v)
  | .kindAt path => (.text (v.kindAt path).text, v)
  | .permissionsAt path => (.text (v.permissionsAt path), v)
  | .stat path => (.ofExcept .record (v.stat path), v)
  | .list dir => (.ofExcept .names (v.list dir), v)
  | .listPacked dir buffer => (.ofExcept (fun r => .filled r.1 r.2) (v.listPacked dir buffer), v)
  | .changeDirectory target cwd => (.ofExcept .text (v.changeDirectory target cwd), v)
  | .up cwd => (.text (Path.up cwd), v)
  | .usage => (.figures v.usage, v)

/-- Answers requests in order. -/
def serve (v : Volume) : List Request → List Reply × Volume
  | [] => ([], v)
  | r :: rs =>
    let (reply, v) := v.answer r
    let (replies, v) := v.serve rs
    (reply :: replies, v)

/-- The volumes that requests can lead to from an empty volume with the given limits. -/
inductive Reachable (limits : Limits) : Volume → Prop
  /-- An empty volume. -/
  | start : Reachable limits (ofLimits limits)
  /-- One more request. -/
  | step {v : Volume} (r : Request) : Reachable limits v → Reachable limits (v.answer r).2

theorem serve_cons (v : Volume) (r : Request) (rs : List Request) :
    v.serve (r :: rs) =
      ((v.answer r).1 :: ((v.answer r).2.serve rs).1, ((v.answer r).2.serve rs).2) := rfl

/-- What is reachable stays so under any list of requests. -/
theorem Reachable.serve {limits : Limits} {v : Volume} (h : Reachable limits v)
    (rs : List Request) : Reachable limits (v.serve rs).2 := by
  induction rs generalizing v with
  | nil => exact h
  | cons r rs ih => rw [serve_cons]; exact ih (h.step r)

end RamShell.Volume
