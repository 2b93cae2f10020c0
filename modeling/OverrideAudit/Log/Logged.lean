import OverrideAudit.Fault

/-! Values that come with what is told during their computation: warnings, which the user should
look at, and notices of how the work goes on. -/
namespace OverrideAudit

inductive Severity
  | error
  | warning
  | info
  | debug
  | trace
deriving DecidableEq, Repr

namespace Severity

def rank : Severity → Nat
  | error => 1
  | warning => 2
  | info => 3
  | debug => 4
  | trace => 5

def label : Severity → Text
  | error => "ERROR".toList
  | warning => " WARN".toList
  | info => " INFO".toList
  | debug => "DEBUG".toList
  | trace => "TRACE".toList

end Severity

inductive LogPart
  | commandLine
  | settings
  | overrides
  | issues
  | database
  | repository
  | installed
  | masking
  | audit
  | keywordAudit
  | useAudit
deriving DecidableEq, Repr

/-- The name by which a filter calls the part. The name of a part starts with the names of those
that it belongs to. -/
def LogPart.name : LogPart → Text
  | commandLine => "confcheck".toList
  | settings => "confcheck_config::loader".toList
  | overrides => "confcheck_config::reader".toList
  | issues => "confcheck_package::issue".toList
  | database => "confcheck_package::db".toList
  | repository => "confcheck_package::db::repo".toList
  | installed => "confcheck_package::db::vdb".toList
  | masking => "confcheck_package::mask".toList
  | audit => "confcheck_package::analysis".toList
  | keywordAudit => "confcheck_package::analysis::keywords".toList
  | useAudit => "confcheck_package::analysis::use_flags".toList

inductive Warning
  | invalidMaskEntry (source line : Text)
  | missingParentProfile (path : Text)
  | noMetadataCache (repository : Text)
  | skippedCacheEntry (path : Text) (fault : ReadFault)
  | noInstalledPackages (path : Text)
  | skippedInstalledEntry (path : Text) (fault : ReadFault)
  | brokenOverrideEntry (path : Text) (fault : FileFault)
  | folderLoop (path ancestor : Text)
  | unreadableOverrides (path : Text) (fault : FileFault)
  | unmatchedPattern (pattern : Text)
  | undeclaredInstalled (cpv : Text)
  | unknownInstalledFlags (cpv : Text)
deriving DecidableEq, Repr

def notAvailableText (cpv : Text) : Text := "Package data not available: ".toList ++ cpv

def Warning.message : Warning → Text
  | invalidMaskEntry source line =>
    "Invalid mask entry in ".toList ++ source ++ ": ".toList ++ line
  | missingParentProfile path => "Parent profile ".toList ++ path ++ " does not exist".toList
  | noMetadataCache repository =>
    "Repository ".toList ++ repository ++ " has no metadata cache".toList
  | skippedCacheEntry path fault =>
    "Skipping cache entry ".toList ++ path ++ ": ".toList ++ fault.message
  | noInstalledPackages path =>
    "Installed package database ".toList ++ path ++ " not found".toList
  | skippedInstalledEntry path fault =>
    "Skipping installed entry ".toList ++ path ++ ": ".toList ++ fault.message
  | brokenOverrideEntry path fault =>
    "Failed to read override directory entry: IO error for operation on ".toList ++ path ++
      ": ".toList ++ fault.message
  | folderLoop path ancestor =>
    "Failed to read override directory entry: File system loop found: ".toList ++ path ++
      " points to an ancestor ".toList ++ ancestor
  | unreadableOverrides path fault =>
    "Failed to read ".toList ++ path ++ ": ".toList ++ fault.message
  | unmatchedPattern pattern =>
    "Issue pattern '".toList ++ pattern ++ "' matches no issue".toList
  | undeclaredInstalled cpv =>
    "Cannot check USE flags of installed ".toList ++ cpv ++ ": ".toList ++ notAvailableText cpv
  | unknownInstalledFlags cpv =>
    "Cannot read USE flags of installed ".toList ++ cpv ++ ": ".toList ++ notAvailableText cpv

def Warning.part : Warning → LogPart
  | invalidMaskEntry _ _ | missingParentProfile _ => .masking
  | noMetadataCache _ | skippedCacheEntry _ _ => .repository
  | noInstalledPackages _ | skippedInstalledEntry _ _ => .installed
  | brokenOverrideEntry _ _ | folderLoop _ _ | unreadableOverrides _ _ => .overrides
  | unmatchedPattern _ => .issues
  | undeclaredInstalled _ | unknownInstalledFlags _ => .useAudit

inductive Notice
  | configRoot (path : Text)
  | checking (category : Category)
  | readingOverrides (path : Text)
  | reported (count : Nat)
  | noOverrides (category : Category) (path : Text)
  | noSettings (path : Text)
  | unfinishedStatement (statement : Text)
  | missingOverrides (path : Text)
  | readingFile (path : Text)
  | loading
  | noProfile (path : Text)
  | loaded (available installed : Nat)
  | assumedArch (arch : Text)
  | readAvailable (count : Nat) (path : Text)
  | readInstalled (count : Nat) (path : Text)
  | loadingProfile (path : Text)
  | ignoredRecord (source : Text) (line : Nat) (fault : ReadFault)
  | skippedRecord (source : Text) (line : Nat) (atom : Text)
  | hiddenVersion (cpv : Text) (reasons : List Text)
deriving DecidableEq, Repr

namespace Notice

def message : Notice → Text
  | configRoot path => "Using configuration root ".toList ++ path
  | checking category => "Checking ".toList ++ category.name ++ " overrides".toList
  | readingOverrides path => "Reading ".toList ++ path
  | reported count => "Reported ".toList ++ Text.ofNat count ++ " issues".toList
  | noOverrides category path =>
    "No ".toList ++ category.name ++ " overrides at ".toList ++ path
  | noSettings path => "No make.conf at ".toList ++ path
  | unfinishedStatement statement => "Unterminated quote in assignment: ".toList ++ statement
  | missingOverrides path => "Override path does not exist: ".toList ++ path
  | readingFile path => "Reading override file ".toList ++ path
  | loading => "Loading package database".toList
  | noProfile path => "No make.profile below ".toList ++ path
  | loaded available installed =>
    "Loaded ".toList ++ Text.ofNat available ++ " available and ".toList ++
      Text.ofNat installed ++ " installed packages".toList
  | assumedArch arch => "Assuming ARCH=".toList ++ arch
  | readAvailable count path =>
    "Read ".toList ++ Text.ofNat count ++ " cache entries from ".toList ++ path
  | readInstalled count path =>
    "Read ".toList ++ Text.ofNat count ++ " installed packages from ".toList ++ path
  | loadingProfile path => "Loading profile ".toList ++ path
  | ignoredRecord source line fault =>
    "Ignoring ".toList ++ source ++ ':' :: Text.ofNat line ++ ": ".toList ++ fault.message
  | skippedRecord source line atom =>
    "Skipping ".toList ++ source ++ ':' :: Text.ofNat line ++ ' ' :: atom
  | hiddenVersion cpv reasons =>
    cpv ++ " masked by ".toList ++ ", ".toList.intercalate reasons

def severity : Notice → Severity
  | loading | loaded _ _ => .info
  | _ => .debug

def part : Notice → LogPart
  | configRoot _ | checking _ | readingOverrides _ | reported _ => .commandLine
  | noOverrides _ _ | noSettings _ | unfinishedStatement _ => .settings
  | missingOverrides _ | readingFile _ => .overrides
  | loading | noProfile _ | loaded _ _ | assumedArch _ => .database
  | readAvailable _ _ => .repository
  | readInstalled _ _ => .installed
  | loadingProfile _ => .masking
  | ignoredRecord _ _ _ | skippedRecord _ _ _ => .audit
  | hiddenVersion _ _ => .keywordAudit

end Notice

inductive LogEntry
  | warning (w : Warning)
  | notice (n : Notice)
deriving DecidableEq, Repr

def LogEntry.warning? : LogEntry → Option Warning
  | warning w => some w
  | notice _ => none

/-- A value with the log of its computation. -/
@[ext]
structure Logged (α : Type) where
  value : α
  log : List LogEntry

namespace Logged
variable {α β : Type}

def warnings (x : Logged α) : List Warning := x.log.filterMap LogEntry.warning?

def warn (w : Warning) : Logged Unit := ⟨(), [.warning w]⟩

def note (n : Notice) : Logged Unit := ⟨(), [.notice n]⟩

def warnEach (ws : List Warning) : Logged Unit := ⟨(), ws.map .warning⟩

def noteEach (ns : List Notice) : Logged Unit := ⟨(), ns.map .notice⟩

instance : Monad Logged where
  pure a := ⟨a, []⟩
  bind x f := ⟨(f x.value).value, x.log ++ (f x.value).log⟩

@[simp] theorem value_pure (a : α) : (pure a : Logged α).value = a := rfl

@[simp] theorem log_pure (a : α) : (pure a : Logged α).log = [] := rfl

@[simp] theorem value_bind (x : Logged α) (f : α → Logged β) :
    (x >>= f).value = (f x.value).value := rfl

@[simp] theorem value_map (f : α → β) (x : Logged α) : (f <$> x).value = f x.value := rfl

@[simp] theorem log_bind (x : Logged α) (f : α → Logged β) :
    (x >>= f).log = x.log ++ (f x.value).log := rfl

@[simp] theorem warnings_pure (a : α) : (pure a : Logged α).warnings = [] := rfl

@[simp] theorem warnings_bind (x : Logged α) (f : α → Logged β) :
    (x >>= f).warnings = x.warnings ++ (f x.value).warnings := by
  simp [warnings]

@[simp] theorem value_warn (w : Warning) : (warn w).value = () := rfl

@[simp] theorem warnings_warn (w : Warning) : (warn w).warnings = [w] := rfl

@[simp] theorem value_note (n : Notice) : (note n).value = () := rfl

@[simp] theorem warnings_note (n : Notice) : (note n).warnings = [] := rfl

@[simp] theorem value_warnEach (ws : List Warning) : (warnEach ws).value = () := rfl

@[simp] theorem warnings_warnEach (ws : List Warning) : (warnEach ws).warnings = ws := by
  simp [warnings, warnEach, List.filterMap_map, Function.comp_def, LogEntry.warning?]

@[simp] theorem value_noteEach (ns : List Notice) : (noteEach ns).value = () := rfl

@[simp] theorem warnings_noteEach (ns : List Notice) : (noteEach ns).warnings = [] := by
  simp [warnings, noteEach, List.filterMap_map, Function.comp_def, LogEntry.warning?]

instance : LawfulMonad Logged :=
  LawfulMonad.mk' Logged
    (fun _ => Logged.ext rfl (by simp [Functor.map]))
    (fun _ _ => Logged.ext rfl (by simp [bind, pure]))
    (fun _ _ _ => Logged.ext rfl (by simp [bind]))

end Logged

end OverrideAudit
