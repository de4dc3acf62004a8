/-!
# Built-in templates

The texts from which build scripts are made when no other templates are given, line by line.
-/

namespace Configurator.Template.Builtin

/-- Lines as a text in which each line is ended. -/
def ofLines (lines : List String) : String :=
  String.join (lines.map (· ++ "\n"))

/-- The main makefile of the current family. -/
def currentMakefile : String := ofLines [
  "# Makefile for project $pname, generated by modforge.",
  "# Build settings live in $pname/$pname_user.mk; $pname/$pname_wiz.mk is",
  "# rewritten on every generation.",
  "",
  "# Set to 1 for verbose build output",
  "V := 0",
  "",
  "default: all",
  "",
  "TRG += $pname",
  "",
  "include $pname/$pname_wiz.mk",
  "include $pname/$pname_user.mk"
]

/-- The settings of the current family that each generation rewrites. -/
def currentWizard : String := ofLines [
  "# Generated by modforge. Changes are lost on the next generation;",
  "# put your own settings in $pname_user.mk.",
  "",
  "# Target CPU",
  "$pname_CPU = $cpuname",
  "",
  "# CPU clock frequency in Hz",
  "$pname_CPU_FREQ = $cpuclockfreq",
  "",
  "# Toolchain",
  "$pname_PREFIX = \"$prefix\"",
  "$pname_SUFFIX = \"$suffix\"",
  "",
  "# CPU build parameters",
  "$cpuparameters",
  "",
  "# Module constants",
  "$constants",
  "",
  "# C sources",
  "$pname_WIZARD_CSRC = \\",
  "\t$csrc",
  "",
  "# C sources placed in program memory",
  "$pname_WIZARD_PCSRC = \\",
  "\t$pcsrc",
  "",
  "# Preprocessed assembly sources",
  "$pname_WIZARD_CPPASRC = \\",
  "\t$cppasrc",
  "",
  "# C++ sources",
  "$pname_WIZARD_CXXSRC = \\",
  "\t$cxxsrc",
  "",
  "# Assembly sources",
  "$pname_WIZARD_ASRC = \\",
  "\t$asrc"
]

/-- The settings of the current family that belong to the user. -/
def currentUser : String := ofLines [
  "# User settings for $pname. Written once when the project is created and",
  "# never overwritten afterwards.",
  "",
  "$pname_PROGRAMMER_CPU = $cpuname",
  "",
  "# Sources",
  "$pname_USER_CSRC = \\",
  "\t$main \\",
  "\t#",
  "",
  "$pname_USER_PCSRC = \\",
  "\t#",
  "",
  "$pname_USER_CPPASRC = \\",
  "\t#",
  "",
  "$pname_USER_CXXSRC = \\",
  "\t#",
  "",
  "$pname_USER_ASRC = \\",
  "\t#",
  "",
  "# Flags",
  "$pname_USER_CPPFLAGS = \\",
  "\t-O0 \\",
  "\t-fno-strict-aliasing \\",
  "\t#",
  "",
  "$pname_USER_LDFLAGS = \\",
  "\t#",
  "",
  "# Merge wizard and user settings",
  "$pname_CSRC = $($pname_WIZARD_CSRC) $($pname_USER_CSRC)",
  "$pname_PCSRC = $($pname_WIZARD_PCSRC) $($pname_USER_PCSRC)",
  "$pname_CPPASRC = $($pname_WIZARD_CPPASRC) $($pname_USER_CPPASRC)",
  "$pname_CXXSRC = $($pname_WIZARD_CXXSRC) $($pname_USER_CXXSRC)",
  "$pname_ASRC = $($pname_WIZARD_ASRC) $($pname_USER_ASRC)",
  "$pname_CPPFLAGS = $($pname_USER_CPPFLAGS)",
  "$pname_LDFLAGS = $($pname_USER_LDFLAGS)"
]

/-- The main makefile of the legacy family. -/
def legacyMakefile : String := ofLines [
  "# Makefile for project $pname, generated by modforge.",
  "",
  "default: all",
  "",
  "TRG += $pname",
  "",
  "include $pname/$pname.mk",
  "include $pname/$pname_user.mk"
]

/-- The settings of the legacy family that each generation rewrites. -/
def legacyProject : String := ofLines [
  "# Generated by modforge (legacy layout). Changes are lost on the next",
  "# generation; put your own settings in $pname_user.mk.",
  "",
  "$pname_CPU = $cpuname",
  "$pname_CPU_FREQ = $cpuclockfreq",
  "$pname_PREFIX = \"$prefix\"",
  "$pname_SUFFIX = \"$suffix\"",
  "",
  "$cpuparameters",
  "",
  "$pname_CSRC = \\",
  "\t$main \\",
  "\t$csrc",
  "",
  "$pname_CPPASRC = \\",
  "\t$cppasrc",
  "",
  "$pname_CXXSRC = \\",
  "\t$cxxsrc",
  "",
  "$pname_ASRC = \\",
  "\t$asrc"
]

/-- The settings of the legacy family that belong to the user. -/
def legacyUser : String := ofLines [
  "# User settings for $pname. Written once when the project is created and",
  "# never overwritten afterwards.",
  "",
  "$pname_USER_CPPFLAGS = \\",
  "\t-O0 \\",
  "\t#",
  "",
  "$pname_CPPFLAGS += $($pname_USER_CPPFLAGS)"
]

end Configurator.Template.Builtin
