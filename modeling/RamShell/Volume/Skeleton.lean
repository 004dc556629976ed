import RamShell.Volume.Update
/-!
# RamShell.Volume.Skeleton

What a volume holds at first boot: the standard directories, and a few files with something to
read. Seeding leaves alone what already exists, so it can be repeated after a failure.
-/

namespace RamShell.Volume

/-- The standard directories, parents before children. -/
def skeletonDirs : List String :=
  ["/bin", "/home", "/home/user", "/etc", "/tmp", "/usr", "/var", "/dev", "/proc", "/root"]

/-- A file made at first boot. -/
structure Fixture where
  /-- Where the file is. -/
  path : String
  /-- The lines that it holds. -/
  lines : List String
  /-- Its permission bits. -/
  mode : UInt16
  deriving DecidableEq, Repr

/-- The content of a file made at first boot: its lines, each with its line end. -/
def Fixture.content (f : Fixture) : Bytes :=
  f.lines.flatMap fun line => Text.encode line ++ [0x0A]

/-- The greeting of `/welcome.txt`. -/
def welcomeLines : List String :=
  ["Welcome to Alpha OS!",
    "",
    "This system keeps every file in memory:",
    "- a flat entry table keyed by full path",
    "- one append-only data arena for all content",
    "- nothing survives a reboot",
    "",
    "Type 'help' for available commands.",
    "Type 'root' to enter the root shell."]

/-- The command summary of `/readme.txt`. -/
def readmeLines : List String :=
  ["Alpha OS File System",
    "====================",
    "",
    "Commands:",
    "ls [-l] [path]    list directory contents",
    "cd <path>         change directory (.. and absolute paths work)",
    "pwd               print working directory",
    "mkdir [-p] <dir>  create a directory",
    "touch <file>      create an empty file",
    "write <file> ...  replace a file's content",
    "cat <file>        show file content",
    "rm <path>         remove a file or empty directory",
    "tree [path]       show the directory tree",
    "stat              filesystem statistics"]

/-- The version notes of `/etc/version`. -/
def versionLines : List String :=
  ["Alpha OS v1.0", "Kernel: AlphaKernel", "Shell: AlphaShell v2.0"]

/-- The message of the day. -/
def motdLines : List String :=
  ["Welcome to Alpha OS.",
    "A small operating system for learning.",
    "Type 'root' for administrative access."]

/-- The user list of `/etc/passwd`. -/
def passwdLines : List String :=
  ["# Alpha OS user database",
    "root:x:0:0:root:/root:/bin/sh",
    "user:x:1000:1000:user:/home/user:/bin/sh"]

/-- The password list of `/etc/shadow`. -/
def shadowLines : List String :=
  ["# Alpha OS shadow file", "root:*:0:0:99999:7:::", "user:*:0:0:99999:7:::"]

/-- The files made at first boot. -/
def fixtures : List Fixture :=
  [⟨"/welcome.txt", welcomeLines, 0o644⟩,
    ⟨"/readme.txt", readmeLines, 0o644⟩,
    ⟨"/etc/version", versionLines, 0o644⟩,
    ⟨"/etc/motd", motdLines, 0o644⟩,
    ⟨"/etc/passwd", passwdLines, 0o644⟩,
    ⟨"/etc/shadow", shadowLines, 0o600⟩]

/-- Makes directories in order, each with what is missing on the way to it, up to the first
failure. -/
def addDirs (v : Volume) : List String → Result Unit
  | [] => (.ok (), v)
  | dir :: dirs =>
    match v.createDirs dir with
    | (.ok (), v) => v.addDirs dirs
    | (.error e, v) => (.error e, v)

/-- Makes one file with its content and mode. -/
def addFixture (v : Volume) (f : Fixture) : Result Unit :=
  match v.write f.path f.content with
  | (.ok (), v) => v.setPermissions f.path f.mode
  | (.error e, v) => (.error e, v)

/-- Makes the files that do not exist yet, in order, up to the first failure. -/
def addFixtures (v : Volume) : List Fixture → Result Unit
  | [] => (.ok (), v)
  | f :: fs =>
    if v.contains f.path then v.addFixtures fs
    else
      match v.addFixture f with
      | (.ok (), v) => v.addFixtures fs
      | (.error e, v) => (.error e, v)

/-- Adds the standard directories and files. -/
def seed (v : Volume) : Result Unit :=
  match v.addDirs skeletonDirs with
  | (.ok (), v) => v.addFixtures fixtures
  | (.error e, v) => (.error e, v)

/-- A volume of standard size with the standard directories and files. -/
def seeded : Except Error Volume :=
  match seed (ofLimits .standard) with
  | (.ok (), v) => .ok v
  | (.error e, _) => .error e

end RamShell.Volume
