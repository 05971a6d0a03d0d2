import StaticSite.CommandLine
import StaticSite.FileSystem
import StaticSite.Toml.Document

/-! The configuration of a site: a TOML file, what the command line says instead, and the paths that
follow from both. -/
namespace StaticSite

inductive ConfigError
  | unreadable (path : Path) (cause : IoError)
  | invalidFile
  | notDirectory (source : Path)
  | destinationHoldsSource
  | badTemplate (ext : Text)
  deriving DecidableEq, Repr

namespace ConfigError

def message : ConfigError → Text
  | .unreadable path _ => "cannot read config \x60".toList ++ path.text ++ ['\x60']
  | .invalidFile => "invalid config file".toList
  | .notDirectory source =>
    "invalid config: [source] \x60".toList ++ source.text ++ "\x60 is not a directory".toList
  | .destinationHoldsSource =>
    "invalid config: [destination] must not be or contain [source]".toList
  | .badTemplate ext =>
    "invalid config: [templates] entry \x60".toList ++ ext ++
      "\x60 must be a bare extension such as \x60html\x60".toList

def chain (e : ConfigError) : List Text :=
  match e with
  | .unreadable _ cause => [e.message, cause.message]
  | _ => [e.message]

end ConfigError

structure ServeOptions where
  interface : Text := "127.0.0.1".toList
  port : Nat := 4000
  watch : Bool := true
  deriving DecidableEq, Repr

/-- `root` and `configPath` are known once the file is found. -/
structure Config where
  root : Option Path := none
  configPath : Path := ⟨[]⟩
  source : Path := .ofString "."
  destination : Path := .ofString "_site"
  exclude : List Text := []
  layouts : Path := .ofString "_layouts"
  includes : Path := .ofString "_includes"
  templates : List Text := ["html".toList, "md".toList]
  requireFrontMatter : Bool := true
  serve : ServeOptions := {}
  deriving DecidableEq, Repr

namespace Toml

def text? : Value → Option Text
  | .string t => some t
  | _ => none

def path? (v : Value) : Option Path := (text? v).map Path.mk

def bool? : Value → Option Bool
  | .boolean b => some b
  | _ => none

def port? : Value → Option Nat
  | .integer (.ofNat n) => if n < 65536 then some n else none
  | _ => none

def texts? : Value → Option (List Text)
  | .array items => items.mapM text?
  | _ => none

def field? {α : Type} (entries : Entries) (key : String) (read : Value → Option α) (default : α) :
    Option α :=
  match entries.lookup key.toList with
  | none => some default
  | some v => read v

def item? {α : Type} (items : List Value) (i : Nat) (read : Value → Option α) (default : α) :
    Option α :=
  match items[i]? with
  | none => some default
  | some v => read v

def hasOnly (keys : List String) (entries : Entries) : Bool :=
  entries.all fun e => keys.any fun k => k.toList == e.1

end Toml

open Toml in
/-- Options by their names, or in their order. -/
def ServeOptions.ofToml? (v : Toml.Value) : Option ServeOptions :=
  let preset : ServeOptions := {}
  match v with
  | .table _ entries => do
    let interface ← field? entries "interface" text? preset.interface
    let port ← field? entries "port" port? preset.port
    let watch ← field? entries "watch" bool? preset.watch
    if hasOnly ["interface", "port", "watch"] entries then some ⟨interface, port, watch⟩ else none
  | .array items => do
    let interface ← item? items 0 text? preset.interface
    let port ← item? items 1 port? preset.port
    let watch ← item? items 2 bool? preset.watch
    some ⟨interface, port, watch⟩
  | _ => none

namespace Config

def keys : List String :=
  ["source", "destination", "exclude", "layouts", "includes", "templates", "require_front_matter",
    "serve"]

open Toml in
def ofEntries? (entries : Entries) : Option Config := do
  let preset : Config := {}
  let source ← field? entries "source" path? preset.source
  let destination ← field? entries "destination" path? preset.destination
  let exclude ← field? entries "exclude" texts? preset.exclude
  let layouts ← field? entries "layouts" path? preset.layouts
  let includes ← field? entries "includes" path? preset.includes
  let templates ← field? entries "templates" texts? preset.templates
  let requireFrontMatter ← field? entries "require_front_matter" bool? preset.requireFrontMatter
  let serve ← field? entries "serve" ServeOptions.ofToml? preset.serve
  if hasOnly keys entries then
    some { preset with
      source, destination, exclude, layouts, includes, templates, requireFrontMatter, serve }
  else none

def ofText (t : Text) : Except ConfigError Config :=
  match (Toml.load? t).bind ofEntries? with
  | none => .error .invalidFile
  | some c => .ok c

def rootOr (root : Option Path) : Path := root.getD (.ofString "./")

def getRoot (c : Config) : Path := rootOr c.root

/-- The path without links and dots if it is there, and else an absolute one. -/
def normalize (fs : FileSystem) (p : Path) : Path :=
  match fs.canonical p with
  | .ok q => q
  | .error _ => if p.isAbsolute then p else (Path.ofPlace fs.here).join p

/-- What the command line says goes before what the file says. -/
def override (c : Config) (cli : CommandLine) : Config :=
  let serve := match cli.command with
    | .serve interface port watch =>
      ⟨interface.getD c.serve.interface, port.getD c.serve.port, watch.getD c.serve.watch⟩
    | _ => c.serve
  { c with
    source := cli.source.getD c.source
    destination := cli.destination.getD c.destination
    serve := serve }

/-- Source and destination are found from the root, layouts and includes from the source. -/
def resolve (fs : FileSystem) (c : Config) (root configName : Path) : Config :=
  let root := normalize fs root
  let source := normalize fs (root.join c.source)
  { c with
    root := some root
    configPath := normalize fs (root.join configName)
    source := source
    destination := normalize fs (root.join c.destination)
    layouts := normalize fs (source.join c.layouts)
    includes := normalize fs (source.join c.includes) }

def isBareExtension (ext : Text) : Bool := ext ≠ [] && !ext.contains '.'

def complaint (fs : FileSystem) (c : Config) : Option ConfigError :=
  if !fs.isDirectory c.source then some (.notDirectory c.source)
  else if c.source.startsWith c.destination then some .destinationHoldsSource
  else (c.templates.find? fun ext => !isBareExtension ext).map .badTemplate

/-- The configuration file; it need not be there. -/
def read (fs : FileSystem) (p : Path) : Except ConfigError Config :=
  if fs.exists_ p then
    match fs.readText p with
    | .error e => .error (.unreadable p e)
    | .ok t => ofText t
  else .ok {}

def load (fs : FileSystem) (cli : CommandLine) : Except ConfigError Config :=
  match read fs ((rootOr cli.root).join cli.config) with
  | .error e => .error e
  | .ok c =>
    let c := resolve fs (c.override cli) (rootOr cli.root) cli.config
    match c.complaint fs with
    | some e => .error e
    | none => .ok c

end Config
end StaticSite
