/-!
# System errors

What the operating system answers when it does not do what it was asked to.
-/

namespace MarkerSweep

inductive SystemError where
  | noEntry
  | busy
  | notDirectory
  | isDirectory
  | noSpace
  | brokenPipe
  | nameTooLong
  | tooManyLinks
  /-- A path has a zero byte in it, which no system call takes. -/
  | zeroByte
  deriving DecidableEq, Repr

def SystemError.message : SystemError → String
  | .noEntry => "No such file or directory (os error 2)"
  | .busy => "Device or resource busy (os error 16)"
  | .notDirectory => "Not a directory (os error 20)"
  | .isDirectory => "Is a directory (os error 21)"
  | .noSpace => "No space left on device (os error 28)"
  | .brokenPipe => "Broken pipe (os error 32)"
  | .nameTooLong => "File name too long (os error 36)"
  | .tooManyLinks => "Too many levels of symbolic links (os error 40)"
  | .zeroByte => "file name contained an unexpected NUL byte"

end MarkerSweep
