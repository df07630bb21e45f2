/-!
Reasons for which a file system refuses an operation.
-/
namespace DialogueBuild.FileSystem

inductive Fault
  | notFound
  | denied
  | busy
  | exists
  | notDirectory
  | isDirectory
  | invalidArgument
  | brokenPipe
  | nameTooLong
  | notExecutable
  | noSpace
  | tooManyLinks
  /-- The contents of a file are no text. -/
  | notText
  /-- A path holds the character NUL. -/
  | nulInPath
  /-- A command or one of its arguments holds the character NUL. -/
  | nulInCommand
  deriving DecidableEq, Repr

/-- How the operating system words the reason. -/
def Fault.message : Fault → String
  | .notFound => "No such file or directory (os error 2)"
  | .denied => "Permission denied (os error 13)"
  | .busy => "Device or resource busy (os error 16)"
  | .exists => "File exists (os error 17)"
  | .notDirectory => "Not a directory (os error 20)"
  | .isDirectory => "Is a directory (os error 21)"
  | .invalidArgument => "Invalid argument (os error 22)"
  | .noSpace => "No space left on device (os error 28)"
  | .brokenPipe => "Broken pipe (os error 32)"
  | .nameTooLong => "File name too long (os error 36)"
  | .tooManyLinks => "Too many levels of symbolic links (os error 40)"
  | .notExecutable => "Exec format error (os error 8)"
  | .notText => "stream did not contain valid UTF-8"
  | .nulInPath => "file name contained an unexpected NUL byte"
  | .nulInCommand => "nul byte found in provided data"

end DialogueBuild.FileSystem
