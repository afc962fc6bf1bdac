/-!
# Failures of files and streams

Why a file could not be opened, read, created or moved, and why the bytes of a compressed stream
could not be restored.

## What is here

* `IoError.Kind` — the reasons, `IoError.Kind.interrupted` among them.
* `IoError` — a reason with its wording.
-/

set_option autoImplicit false

namespace IpAtlas

/-- Why a file or stream failed.  A reason that has no name here goes by the number that the system
gives it. -/
inductive IoError.Kind where
  | notFound
  | alreadyExists
  | notADirectory
  | isADirectory
  | directoryNotEmpty
  | resourceBusy
  | invalidFilename
  | invalidInput
  | invalidData
  | unexpectedEof
  | uncategorized {number : Nat}
  deriving DecidableEq, Repr

/-- A signal came in during the call.  Nothing was done, and the call may be made again. -/
def IoError.Kind.interrupted : IoError.Kind := @uncategorized 4

/-- A failure of a file or stream. -/
structure IoError where
  kind : IoError.Kind
  message : String
  deriving DecidableEq, Repr

namespace IoError

/-- Nothing has that name. -/
def notFound : IoError := ⟨.notFound, "No such file or directory (os error 2)"⟩

/-- Something has that name already. -/
def alreadyExists : IoError := ⟨.alreadyExists, "File exists (os error 17)"⟩

/-- A name was looked up inside a file. -/
def notADirectory : IoError := ⟨.notADirectory, "Not a directory (os error 20)"⟩

/-- A directory was used as a file. -/
def isADirectory : IoError := ⟨.isADirectory, "Is a directory (os error 21)"⟩

/-- A name that cannot be replaced. -/
def resourceBusy : IoError := ⟨.resourceBusy, "Device or resource busy (os error 16)"⟩

/-- A name longer than directories hold. -/
def nameTooLong : IoError := ⟨.invalidFilename, "File name too long (os error 36)"⟩

/-- A path with a zero character in it. -/
def zeroInPath : IoError :=
  ⟨.invalidInput, "file name contained an unexpected NUL byte"⟩

/-- A directory was mapped into memory. -/
def notMappable : IoError := ⟨@Kind.uncategorized 19, "No such device (os error 19)"⟩

/-- A file read as text is not text. -/
def notText : IoError := ⟨.invalidData, "stream did not contain valid UTF-8"⟩

/-- A compressed stream ends too early. -/
def endOfData : IoError := ⟨.unexpectedEof, "unexpected end of file"⟩

/-- A compressed stream does not begin like one. -/
def badHeader : IoError := ⟨.invalidInput, "invalid gzip header"⟩

/-- A name or comment in the header of a compressed stream does not end. -/
def longHeader : IoError := ⟨.invalidInput, "gzip header field too long"⟩

/-- Compressed data that cannot be restored. -/
def badData : IoError := ⟨.invalidInput, "corrupt deflate stream"⟩

/-- Restored data that does not match its checksum. -/
def badChecksum : IoError :=
  ⟨.invalidInput, "corrupt gzip stream does not have a matching checksum"⟩

end IoError

end IpAtlas
