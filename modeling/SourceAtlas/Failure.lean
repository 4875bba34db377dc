import SourceAtlas.Deadline
import SourceAtlas.FileTree.Lookup

/-!
# Failures
-/

namespace SourceAtlas

/-- Why a file or a whole command gives no result. -/
inductive Failure where
  | pathNotFound (path : Bytes)
  | unreadable (path : Bytes) (cause : PathError)
  /-- The directory at a path, or one below it, cannot be listed. -/
  | unlistable (path : Bytes) (cause : PathError)
  | unwritable (path : Bytes) (cause : PathError)
  /-- The patterns of a file took too long. -/
  | timedOut (timeout : Timeout)
  deriving DecidableEq, Repr, Inhabited

def Failure.message : Failure → String
  | pathNotFound path => "Path " ++ path.shown ++ " does not exist"
  | unreadable path cause => "failed to read " ++ path.shown ++ ": " ++ cause.message
  | unlistable path cause => "failed to list " ++ path.shown ++ ": " ++ cause.message
  | unwritable path cause => "failed to write " ++ path.shown ++ ": " ++ cause.message
  | timedOut timeout => timeout.message

end SourceAtlas
