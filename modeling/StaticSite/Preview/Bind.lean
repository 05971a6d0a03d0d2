import StaticSite.FileSystem
import StaticSite.Log
import StaticSite.Preview.Address

/-! Where the preview listens: at the port asked for, or at the first free one of those after it. -/
namespace StaticSite.Preview

inductive ServeError
  | invalidInterface (text : Text)
  | cannotBind (attempts first last : Nat) (cause : Option IoError)
  deriving DecidableEq, Repr

namespace ServeError

def chain : ServeError → List Text
  | .invalidInterface t =>
    ["Invalid interface \x60".toList ++ t ++ ['\x60'], "invalid IP address syntax".toList]
  | .cannotBind attempts first last cause =>
    ["Failed to bind after ".toList ++ Text.ofNat attempts ++ " attempts (ports ".toList ++
      Text.ofNat first ++
      '-' :: Text.ofNat last ++ "): ".toList ++ (cause.map IoError.message).getD []]

def message (e : ServeError) : Text := Text.join [':', ' '] e.chain

end ServeError

def lastPort : Nat := 65535

/-- The port so many places after another one; there is none after the last. -/
def portAfter (base offset : Nat) : Nat := min (base + offset) lastPort

/-- Tries ports one after another. `refusal` tells why the system does not give a port away. -/
def bindFrom (refusal : Nat → Option IoError) (base offset : Nat) (last : Option IoError) :
    Nat → Except (Option IoError) (Nat × Nat)
  | 0 => .error last
  | attempts + 1 =>
    match refusal (portAfter base offset) with
    | none => .ok (offset, portAfter base offset)
    | some e => bindFrom refusal base (offset + 1) (some e) attempts

def bind (refusal : Nat → Option IoError) (base attempts : Nat) :
    Except ServeError (Nat × List Log.Line) :=
  match bindFrom refusal base 0 none attempts with
  | .error cause => .error (.cannotBind attempts base (portAfter base (attempts - 1)) cause)
  | .ok (0, port) => .ok (port, [])
  | .ok (_, port) =>
    .ok (port,
      [Log.line "serve" ("port ".toList ++ Text.ofNat base ++ " in use, using ".toList ++
      Text.ofNat port ++
      " instead".toList)])

def maxAttempts : Nat := 10

def listen (refusal : Nat → Option IoError) (interface : Text) (base : Nat) :
    Except ServeError (List Log.Line) :=
  match Address.parse? interface with
  | none => .error (.invalidInterface interface)
  | some address =>
    (bind refusal base maxAttempts).map fun (port, lines) =>
      lines ++ [Log.line "serve" ("http://".toList ++ address.withPort port)]

end StaticSite.Preview
