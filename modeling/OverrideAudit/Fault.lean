import OverrideAudit.Text.Basic

/-! Why a text or a file could not be read, and the categories of overrides. -/
namespace OverrideAudit

inductive FileFault
  | missing
  | notFolder
  | isFolder
  | linkLoop
  | nameTooLong
  | nulInName
  | notUtf8
deriving DecidableEq, Repr

namespace FileFault

def message : FileFault → Text
  | missing => "No such file or directory (os error 2)".toList
  | notFolder => "Not a directory (os error 20)".toList
  | isFolder => "Is a directory (os error 21)".toList
  | linkLoop => "Too many levels of symbolic links (os error 40)".toList
  | nameTooLong => "File name too long (os error 36)".toList
  | nulInName => "file name contained an unexpected NUL byte".toList
  | notUtf8 => "stream did not contain valid UTF-8".toList

end FileFault

inductive AtomFault
  | empty
  | badRepository
  | badSlot
  | misplacedWildcard
  | noCategory
  | badCategory
  | versionWithoutOperator
  | operatorWithoutVersion
  | badName
  | malformed
deriving DecidableEq, Repr

def AtomFault.describe (text : Text) : AtomFault → Text
  | empty => "empty atom".toList
  | badRepository => "invalid repository: ".toList ++ text
  | badSlot => "invalid slot: ".toList ++ text
  | misplacedWildcard => "misplaced wildcard: ".toList ++ text
  | noCategory => "missing category: ".toList ++ text
  | badCategory => "invalid category: ".toList ++ text
  | versionWithoutOperator => "version without operator: ".toList ++ text
  | operatorWithoutVersion => "operator without version: ".toList ++ text
  | badName => "invalid package name: ".toList ++ text
  | malformed => text

inductive ReadFault
  | atom (fault : AtomFault) (text : Text)
  | version (text : Text)
  | category (text : Text)
  | file (fault : FileFault)
deriving DecidableEq, Repr

def ReadFault.message : ReadFault → Text
  | atom fault text => "Invalid package atom: ".toList ++ fault.describe text
  | version text => "Invalid version: ".toList ++ text
  | category text => "Unknown override category: ".toList ++ text
  | file fault => "IO error: ".toList ++ fault.message

inductive Category
  | keywords
  | mask
  | unmask
  | use
  | features
  | cflags
  | cxxflags
  | ldflags
deriving DecidableEq, Repr

namespace Category

def all : List Category := [keywords, mask, unmask, use, features, cflags, cxxflags, ldflags]

def name : Category → Text
  | keywords => "keywords".toList
  | mask => "mask".toList
  | unmask => "unmask".toList
  | use => "use".toList
  | features => "features".toList
  | cflags => "cflags".toList
  | cxxflags => "cxxflags".toList
  | ldflags => "ldflags".toList

def fileNames : Category → List Text
  | keywords => ["package.accept_keywords".toList, "package.keywords".toList]
  | c => ["package.".toList ++ c.name]

def read (t : Text) : Except ReadFault Category :=
  match all.find? (·.name == t) with
  | some c => .ok c
  | none => .error (.category t)

end Category

end OverrideAudit
