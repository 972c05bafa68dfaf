import DocComments.Files.Entry
import DocComments.Settings.Written

/-!
# Where settings come from

A project has a settings file for everybody and one for the user. A file that is missing, cannot be
read or is not valid says nothing.
-/

set_option autoImplicit false

namespace DocComments

abbrev Environment := Text → Option Text

/-- A variable that is set to something else than blanks, without those around it. -/
def Environment.value? (env : Environment) (name : Text) : Option Text :=
  match (env name).map Text.trim with
  | some [] => none
  | value => value

namespace Settings

structure Sources where
  system : Path
  user : Path
  deriving DecidableEq, Repr

/-- The root of the project: the variable for it, or the working directory. -/
def root (env : Environment) (working : Path) : Path :=
  (env.value? "PRJ_ROOT".toList).getD working

/-- The directory of the user's settings. A directory given on the command line counts before the
variable for it. -/
def home (env : Environment) (working : Path) (given : Option Path) : Path :=
  (root env working).join
    (given.getD ((env.value? "PRJ_CONFIG_HOME".toList).getD ".config".toList))

def sources (env : Environment) (working : Path) (given : Option Path) : Sources :=
  ⟨(root env working).join "packages/conf/docs.yaml".toList,
    (home env working given).join "omni-docs/settings.yaml".toList⟩

def ofFile (found : Except FileError ByteArray) : Settings :=
  match found with
  | .error _ => none
  | .ok bytes =>
    match Utf8.decode bytes with
    | .error _ => none
    | .ok t => (read? t).getD none

/-- The settings of the two files, the user's on top. -/
def load (read : Path → Except FileError ByteArray) (s : Sources) : Settings :=
  (ofFile (read s.system)).under (ofFile (read s.user))

end Settings

end DocComments
