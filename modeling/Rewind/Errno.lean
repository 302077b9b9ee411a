/-!
Error numbers of the kernel. A number without a name of its own is kept as `other`, and is shown
as an unknown error.
-/
namespace Rewind

inductive Errno where
  | perm
  | noent
  | intr
  | badf
  | again
  | nomem
  | acces
  | fault
  | busy
  | exist
  | nodev
  | inval
  | nfile
  | mfile
  | notty
  | nospc
  | nosys
  | opnotsupp
  | io
  /-- Any number that stands for no known error. -/
  | other
  deriving DecidableEq, Repr

namespace Errno

/-- The known numbers, each with its error, its name and its text. -/
def table : List (Nat × Errno × String × String) := [
  (1, perm, "EPERM", "Operation not permitted"),
  (2, noent, "ENOENT", "No such file or directory"),
  (4, intr, "EINTR", "Interrupted system call"),
  (5, io, "EIO", "I/O error"),
  (9, badf, "EBADF", "Bad file number"),
  (11, again, "EAGAIN", "Try again"),
  (12, nomem, "ENOMEM", "Out of memory"),
  (13, acces, "EACCES", "Permission denied"),
  (14, fault, "EFAULT", "Bad address"),
  (16, busy, "EBUSY", "Device or resource busy"),
  (17, exist, "EEXIST", "File exists"),
  (19, nodev, "ENODEV", "No such device"),
  (22, inval, "EINVAL", "Invalid argument"),
  (23, nfile, "ENFILE", "File table overflow"),
  (24, mfile, "EMFILE", "Too many open files"),
  (25, notty, "ENOTTY", "Not a typewriter"),
  (28, nospc, "ENOSPC", "No space left on device"),
  (38, nosys, "ENOSYS", "Function not implemented"),
  (95, opnotsupp, "EOPNOTSUPP", "Operation not supported on transport endpoint")]

def ofCode (code : Int) : Errno :=
  match table.find? fun row => (row.1 : Int) == code with
  | some row => row.2.1
  | none => other

/-- The number of an error; unknown errors count as 0. -/
def code (e : Errno) : Nat :=
  match table.find? fun row => row.2.1 == e with
  | some row => row.1
  | none => 0

def name (e : Errno) : String :=
  match table.find? fun row => row.2.1 == e with
  | some row => row.2.2.1
  | none => "UnknownErrno"

def text (e : Errno) : String :=
  match table.find? fun row => row.2.1 == e with
  | some row => row.2.2.2
  | none => "Unknown errno"

/-- Name and text, as error messages quote them. -/
def message (e : Errno) : String := s!"{e.name}: {e.text}"

/-- The wording of the system library, which ends in the number. -/
def systemMessage (code : Int) : String :=
  let text := match code with
    | 25 => "Inappropriate ioctl for device"
    | 9 => "Bad file descriptor"
    | 11 => "Resource temporarily unavailable"
    | 12 => "Cannot allocate memory"
    | 5 => "Input/output error"
    | 20 => "Not a directory"
    | 21 => "Is a directory"
    | 95 => "Operation not supported"
    | 23 => "Too many open files in system"
    | _ => (ofCode code).text
  s!"{text} (os error {code})"

end Rewind.Errno
