import GetBibleSword.Core.Configuration

/-!
# Listing and extracting modules

`list_modules` and `extract_module` of `src/sword_extractor.cpp`. SWORD and the file system are parameters.

* `SwordConstants`, `ModuleAnswers` : what the headers of SWORD define, and what a module answers;
* `moduleFields`, `footerFields`, `headerFields` : the fields of the records;
* `extractBody`, `extractModule`, `listModules` : the functions; nothing where the entries never end.
-/

namespace GetBibleSword.Core
open GetBibleSword.Lib FsPath

/-! ## Modules -/

/-- Constants of the headers of SWORD, and the version of this program. -/
structure SwordConstants where
  modtypeBibles : Bytes
  modtypeCommentaries : Bytes
  modtypeLexdicts : Bytes
  modtypeDailydevos : Bytes
  modtypeGenbooks : Bytes
  directionLtr : Byte
  directionRtl : Byte
  directionBidi : Byte
  encLatin1 : Byte
  encUtf8 : Byte
  encScsu : Byte
  encUtf16 : Byte
  encRtf : Byte
  encHtml : Byte
  fmtPlain : Byte
  fmtThml : Byte
  fmtGbf : Byte
  fmtHtml : Byte
  fmtHtmlhref : Byte
  fmtRtf : Byte
  fmtOsis : Byte
  fmtWebif : Byte
  fmtTei : Byte
  fmtXhtml : Byte
  fmtLatex : Byte
  /-- `SWORD_VERSION_STR`. -/
  swordVersion : Bytes
  swordVersion_valid : isValidUtf8 swordVersion = true
  /-- `GETBIBLESWORD_VERSION`. -/
  producerVersion : Bytes
  producerVersion_valid : isValidUtf8 producerVersion = true

/-- The answers of a `sword::SWModule`. -/
structure ModuleAnswers (Position : Type) where
  name : CString
  type : CString
  description : CString
  language : CString
  direction : Byte
  encoding : Byte
  markup : Byte
  /-- `getConfig`, in its traversal order. -/
  config : List (Bytes × Bytes)
  getConfigEntry : String → CString
  engine : Engine Position

/-- `switch (value)`: the name of the first code that it is. -/
def nameOf (value : Byte) : List (Byte × String) → Bytes
  | [] => ascii "unknown"
  | (code, name) :: names => if value = code then ascii name else nameOf value names

section Names
variable (sword : SwordConstants)

def directionName (value : Byte) : Bytes :=
  nameOf value [(sword.directionLtr, "ltr"), (sword.directionRtl, "rtl"), (sword.directionBidi, "bidi")]

def encodingName (value : Byte) : Bytes :=
  nameOf value [(sword.encLatin1, "latin1"), (sword.encUtf8, "utf8"), (sword.encScsu, "scsu"),
    (sword.encUtf16, "utf16"), (sword.encRtf, "rtf"), (sword.encHtml, "html")]

def markupName (value : Byte) : Bytes :=
  nameOf value [(sword.fmtPlain, "plain"), (sword.fmtThml, "thml"), (sword.fmtGbf, "gbf"), (sword.fmtHtml, "html"),
    (sword.fmtHtmlhref, "htmlhref"), (sword.fmtRtf, "rtf"), (sword.fmtOsis, "osis"), (sword.fmtWebif, "webif"),
    (sword.fmtTei, "tei"), (sword.fmtXhtml, "xhtml"), (sword.fmtLatex, "latex")]

end Names

def enumJson (code : Byte) (name : Bytes) : Bytes :=
  objectJson (fieldsOf [(ascii "code", decimal code.val), (ascii "name", jsonString name)]).entries

section Module
variable {Position : Type} (sword : SwordConstants) (module : ModuleAnswers Position)

/-- The entries `config_contains` looks into. -/
def isClassifying (name : Bytes) : Bool :=
  name = ascii "category" || name = ascii "feature" || name = ascii "type"

/-- `value.find(needle) != npos`. -/
def findsIn (needle : Bytes) : Bytes → Bool
  | [] => needle.isEmpty
  | c :: value => needle.isPrefixOf (c :: value) || findsIn needle value

def configContains (needle : String) : Bool :=
  module.config.any fun entry =>
    isClassifying (entry.1.map lowercaseAscii) &&
      findsIn ((ascii needle).map lowercaseAscii) (entry.2.map lowercaseAscii)

def classifyModule : Bytes :=
  let type := safeCString module.type
  if type = sword.modtypeBibles then ascii "bible"
  else if type = sword.modtypeCommentaries then ascii "commentary"
  else if type = sword.modtypeLexdicts then ascii "dictionary_or_lexicon"
  else if type = sword.modtypeDailydevos then ascii "devotional"
  else if type = sword.modtypeGenbooks then
    if configContains module "map" || configContains module "image" || configContains module "resource" then
      ascii "resource"
    else ascii "general_book"
  else ascii "unknown"

def moduleFields : List (Bytes × Bytes) :=
  [(ascii "classification", jsonString (classifyModule sword module)),
    (ascii "description", byteValueJson (safeCString module.description)),
    (ascii "direction", enumJson module.direction (directionName sword module.direction)),
    (ascii "driver", byteValueJson (safeCString (module.getConfigEntry "ModDrv"))),
    (ascii "encoding", enumJson module.encoding (encodingName sword module.encoding)),
    (ascii "language", byteValueJson (safeCString module.language)),
    (ascii "markup", enumJson module.markup (markupName sword module.markup)),
    (ascii "name", byteValueJson (safeCString module.name)),
    (ascii "sword_type", byteValueJson (safeCString module.type))]

end Module

/-! ## Header and footer -/

def headerFields (sword : SwordConstants) (command : String) (chunkSize : Nat) : List (Bytes × Bytes) :=
  [(ascii "command", jsonString (ascii command)), (ascii "contract", ascii "\"getbiblesword.ndjson/v1\""),
    (ascii "contract_version", ascii "1"), (ascii "deterministic", ascii "true"),
    (ascii "producer", ascii "\"getBibleSword\""), (ascii "producer_version", jsonString sword.producerVersion),
    (ascii "sword_version", jsonString sword.swordVersion)] ++
    if chunkSize ≠ 0 then [(ascii "artifact_chunk_size", decimal chunkSize)] else []

def countsJson (counts : DiagnosticCounts) : Bytes :=
  objectJson (fieldsOf [(ascii "error", decimal counts.error), (ascii "info", decimal counts.info),
    (ascii "warning", decimal counts.warning)]).entries

def footerFields (s : Extraction) : List (Bytes × Bytes) :=
  [(ascii "artifact_bytes", decimal s.artifactBytes), (ascii "artifacts", decimal s.artifacts),
    (ascii "diagnostics", countsJson s.diagnostics), (ascii "entries", decimal s.entries)]

/-- `NdjsonWriter::finish` on the writer of a session. -/
def finishSession (success : Bool) (fields : JsonFields) : Action Unit := fun s =>
  match finish success fields s.writer with
  | .ok _ writer => .ok () { s with writer := writer }
  | .error e writer => .error e { s with writer := writer }

/-- `writer.finish(success, footer_fields(...))`. -/
def finishRun (faults : Faults) (success : Bool) : Run Unit := do
  onSession (mayThrow faults .extraction)
  let s ← get
  onSession (finishSession success (fieldsOf (footerFields s)))

/-! ## The functions -/

def CppException.what : CppException → Bytes
  | .logicError message => ascii message
  | .invalidArgument message => ascii message
  | .runtimeError message => ascii message
  | .other message => message

/-- The diagnostic of a handler. -/
def exceptionDiagnostic (code : String) (e : CppException) : Diagnostic where
  severity := ascii "error"
  code := ascii code
  message := e.what
  context := fieldsOf []

def swordRootInvalid (detail : Bytes) : Diagnostic :=
  errorDiagnostic "sword.root.invalid" "The explicit SWORD path is not a readable directory."
    [(ascii "detail", byteValueJson detail)]

def moduleNotFound (moduleName : Bytes) : Diagnostic :=
  errorDiagnostic "module.not_found" "The requested module was not found in the explicit SWORD root."
    [(ascii "module", byteValueJson moduleName)]

def moduleTypeUnknown (type : Bytes) : Diagnostic :=
  warningDiagnostic "module.type.unknown"
    "The SWORD module type is unknown; generic traversal and full artifacts are retained."
    [(ascii "sword_type", byteValueJson type)]

def configSourceNotFound : Diagnostic :=
  warningDiagnostic "config.source.not_found"
    "No defining raw configuration file was matched; interpreted configuration is retained." []

structure ExtractionOptions where
  swordPath : Path
  moduleName : Bytes
  artifactChunkSize : Nat

/-- What surrounds an extraction; an error is its message. -/
structure Environment (Position : Type) where
  sword : SwordConstants
  icu : Icu
  /-- `canonical_root`. -/
  canonicalRoot : Path → Except Bytes Path
  getModule : Bytes → Option (ModuleAnswers Position)
  /-- `getModules`, in its traversal order. -/
  modules : List (ModuleAnswers Position)
  configuration : ConfigurationAnswers
  discovery : DiscoveryAnswers
  sort : List ArtifactCandidate → List ArtifactCandidate
  sorting : ∀ candidates, Sorting ArtifactCandidate.relativePath candidates (sort candidates)
  /-- The answers about the candidates, by their position. -/
  inspection : Nat → Inspection

/-- How the body of the `try` of `extract_module` ends. -/
inductive BodyEnd where
  /-- By `return false`. -/
  | returned
  /-- Not within the rounds allowed. -/
  | diverged
  | finished
deriving DecidableEq

section Functions
variable (faults : Faults) {Position : Type} (env : Environment Position)

/-- A loop over diagnostics that emits each. -/
def reportAll : List Diagnostic → Run Unit
  | [] => pure ()
  | value :: values => do
    report faults value
    reportAll values

/-- `artifact_data_path`. -/
def artifactDataPath (module : ModuleAnswers Position) : Bytes :=
  let absolute := safeCString (module.getConfigEntry "AbsoluteDataPath")
  if absolute = [] then safeCString (module.getConfigEntry "DataPath") else absolute

/-- From the discovery of artifacts on. -/
def extractArtifacts (module : ModuleAnswers Position) (options : ExtractionOptions) (root : Path)
    (files : List Path) : Run Unit := do
  onSession (mayThrow faults .extraction)
  let found := discoverArtifacts env.discovery env.sort root (artifactDataPath module) files
  reportAll faults found.2
  let candidates := found.1.zipIdx.map fun c => (c.1, env.inspection c.2)
  let result ← onSession (emitArtifacts faults candidates options.artifactChunkSize)
  modify fun s => { s with
    artifacts := result.artifacts
    artifactBytes := result.bytes
    diagnostics := s.diagnostics.countAll (result.diagnostics.map Diagnostic.severity) }

/-- `if (classify_module(*module) == "unknown")`. -/
def checkType (module : ModuleAnswers Position) : Run Unit :=
  if classifyModule env.sword module = ascii "unknown" then
    report faults (moduleTypeUnknown (safeCString module.type))
  else pure ()

/-- `if (config_files.empty())`. -/
def checkFiles (files : List Path) : Run Unit :=
  if files = [] then report faults configSourceNotFound else pure ()

/-- The branch of a module that is there. -/
def extractFound (fuel : Nat) (options : ExtractionOptions) (root : Path) (module : ModuleAnswers Position) :
    Run BodyEnd := do
  onSession (emitRecord faults .module (fieldsOf (moduleFields env.sword module)))
  checkType faults env module
  let files ← findConfigurationFiles faults root options.moduleName env.configuration
  checkFiles faults files
  emitConfigurationSources faults root env.configuration.reread 0 0 files
  emitInterpretedConfiguration faults 0 module.config
  match ← emitEntries faults env.icu module.engine fuel with
  | none => return .diverged
  | some _ => do
    extractArtifacts faults env module options root files
    return .finished

/-- The body of the `try`. -/
def extractBody (fuel : Nat) (options : ExtractionOptions) (root : Path) : Run BodyEnd := do
  onSession (mayThrow faults .extraction)
  match env.getModule options.moduleName with
  | none => do
    report faults (moduleNotFound options.moduleName)
    finishRun faults false
    return .returned
  | some module => extractFound faults env fuel options root module

/-- The body with its handler. -/
def guarded {α : Type} (code : String) (body : Run α) (behind : α) : Run α :=
  tryCatch body fun e => do
    emitDiagnostic faults (exceptionDiagnostic code e)
    return behind

/-- The end of both functions. -/
def close : Run Bool := do
  let success := decide ((← get).diagnostics.error = 0)
  finishRun faults success
  return success

/-- `canonical_root` failed. -/
def refuseRoot (detail : Bytes) : Run Bool := do
  report faults (swordRootInvalid detail)
  finishRun faults false
  return false

/-- `extract_module`, with at most `fuel` rounds of the loop over the entries. -/
def extractModule (fuel : Nat) (options : ExtractionOptions) : Run (Option Bool) := do
  onSession (emitRecord faults .header (fieldsOf (headerFields env.sword "extract" options.artifactChunkSize)))
  onSession (mayThrow faults .extraction)
  match env.canonicalRoot options.swordPath with
  | .error detail => do
    let success ← refuseRoot faults detail
    return some success
  | .ok root => do
    match ← guarded faults "extraction.exception" (extractBody faults env fuel options root) .finished with
    | .returned => return some false
    | .diverged => return none
    | .finished => do
      let success ← close faults
      return some success

/-- The loop of `list_modules`. -/
def emitModules : List (ModuleAnswers Position) → Run Unit
  | [] => pure ()
  | module :: modules => do
    onSession (emitRecord faults .module (fieldsOf (moduleFields env.sword module)))
    emitModules modules

def listModules (swordPath : Path) : Run Bool := do
  onSession (emitRecord faults .header (fieldsOf (headerFields env.sword "list" 0)))
  onSession (mayThrow faults .extraction)
  match env.canonicalRoot swordPath with
  | .error detail => refuseRoot faults detail
  | .ok _ => do
    guarded faults "sword.discovery.exception" (do
      onSession (mayThrow faults .extraction)
      emitModules faults env env.modules) ()
    close faults

end Functions

end GetBibleSword.Core
