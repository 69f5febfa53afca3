import Treewalk.Path

/-! What a process is told by its environment, and the paths that depend on it. -/

namespace Treewalk

structure Environment where
  home : Option Bytes := none
  /-- The settings file to use instead of the one at home. -/
  settingsPath : Option Bytes := none

namespace Environment

def homeDirectory (environment : Environment) : Option Bytes :=
  environment.home.filter (!·.isEmpty)

/-- Where the settings are; the empty path when there is no such place. -/
def defaultSettingsPath (environment : Environment) : Bytes :=
  match environment.settingsPath.filter (!·.isEmpty), environment.homeDirectory with
  | some path, _ => path
  | none, some home => Path.join home (.ofString ".plamrc.yaml")
  | none, none => []

/-- A path in which a tilde at the front stands for the home directory. Without one nothing is
left of it. -/
def expandHome (environment : Environment) (path : Bytes) : Bytes :=
  if path = utf8 '~' ∨ path.startsWith (.ofString "~/") then
    match environment.homeDirectory with
    | some home => Path.join home (path.drop 1)
    | none => []
  else path

end Environment
end Treewalk
