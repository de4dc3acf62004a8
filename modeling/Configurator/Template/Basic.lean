import Configurator.Error
import Configurator.Template.Builtin
import Configurator.Template.Family

/-!
# Templates of build scripts

A family has three templates, each for one file of a project. They are built in, or are read from a
directory, which may keep a directory for each family.
-/

namespace Configurator

structure Template where
  name : String
  /-- Where the file goes, relative to the output directory. -/
  output : String
  text : String
  /-- Whether the file belongs to the user once it is there. -/
  userOwned : Bool
  deriving DecidableEq, Inhabited, Repr

/-- The templates of one family. -/
structure TemplateSet where
  family : Template.Family
  templates : List Template
  deriving DecidableEq, Inhabited, Repr

namespace TemplateSet

/-- The built-in templates of a family for a project. -/
def builtin (family : Template.Family) (project : String) : TemplateSet :=
  let inProject (suffix : String) := Path.join project (project ++ suffix)
  let user := inProject "_user.mk"
  let templates := match family with
    | .current =>
      [⟨"makefile.tmpl", "Makefile", Template.Builtin.currentMakefile, false⟩,
        ⟨"wiz.mk.tmpl", inProject "_wiz.mk", Template.Builtin.currentWizard, false⟩,
        ⟨"user.mk.tmpl", user, Template.Builtin.currentUser, true⟩]
    | .legacy =>
      [⟨"makefile.tmpl", "Makefile", Template.Builtin.legacyMakefile, false⟩,
        ⟨"project.mk.tmpl", inProject ".mk", Template.Builtin.legacyProject, false⟩,
        ⟨"user.mk.tmpl", user, Template.Builtin.legacyUser, true⟩]
  ⟨family, templates⟩

/-- The file in a directory that a template comes from: that of its family, or else the common one. -/
def sourceOf (tree : FileTree) (family : Template.Family) (dir name : String) : String :=
  let ofFamily := Path.join (Path.join dir family.name) name
  if tree.isFile ofFamily then ofFamily else Path.join dir name

/-- The templates of a family with the texts that a directory has for them. -/
def ofDirectory (tree : FileTree) (family : Template.Family) (project dir : String) :
    Except Error TemplateSet := do
  let templates ← (builtin family project).templates.mapM fun t => do
    let path := sourceOf tree family dir t.name
    if !tree.isFile path then throw (.missingTemplate path)
    let text ← (tree.read path).mapError Error.io
    return { t with text }
  return ⟨family, templates⟩

/-- The templates of a directory if one is given, or else the built-in ones. -/
def load (tree : FileTree) (family : Template.Family) (project : String) (dir : Option String) :
    Except Error TemplateSet :=
  match dir with
  | some dir => ofDirectory tree family project dir
  | none => .ok (builtin family project)

end TemplateSet

end Configurator
