import Treewalk.Environment
import Treewalk.Files
import Treewalk.Settings.Draft
import Treewalk.Yaml.Node.Reader

/-! Settings: how the prompt looks, where its history is kept and how programs are run. They are
read from a file that need not exist; what it does not mention has a default. -/

namespace Treewalk.Settings

def ofDocument (document : Yaml.Document) : Except DecodingFault Settings := do
  let ((), draft) ← ((Decoding.takeDocument document).run {}).mapError .refusal
  if draft.mismatches.isEmpty then return draft.settings else throw (.mismatches draft.mismatches)

/-- Reads the settings in a text on top of the defaults, or says why there are none. -/
def Decoder : Type :=
  Bytes → Except Bytes Settings

/-- The decoder that the program runs with. -/
def Decoder.yaml : Decoder := fun source =>
  let settings : Except DecodingFault Settings := do
    match ← (Yaml.Document.read source).mapError .misform with
    | none => return {}
    | some document => ofDocument document
  settings.mapError DecodingFault.message

def parse (environment : Environment) (source : Bytes) (decode : Decoder := .yaml) :
    Except Fault Settings := do
  let settings ← (decode source).mapError .undecodable
  if settings.maxCallDepth < 0 then throw (.negativeDepth settings.maxCallDepth)
  return { settings with historyFile := environment.expandHome settings.historyFile }

inductive LoadFailure where
  | unreadable (failure : ReadFailure)
  | faulty (path : Bytes) (fault : Fault)
  deriving DecidableEq, Repr

def LoadFailure.message : LoadFailure → Bytes
  | unreadable failure => failure.message
  | faulty path fault => path ++ .ofString ": " ++ fault.message

/-- The text of the settings file. Without a path, or a file there, it is empty. -/
def sourceAt (read : FileReader) (path : Bytes) : Except ReadFailure Bytes :=
  if path.isEmpty then .ok []
  else match read path with
    | .error ⟨_, .missing⟩ => .ok []
    | result => result

def load (environment : Environment) (read : FileReader) (path : Bytes)
    (decode : Decoder := .yaml) : Except LoadFailure Settings := do
  let source ← (sourceAt read path).mapError .unreadable
  (parse environment source decode).mapError (.faulty path)

end Treewalk.Settings
