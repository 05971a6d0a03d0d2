import StaticSite.Text

/-! Lines of the log. A line names its topic in brackets; on a terminal the topic has a color and
the message is cut to the width. -/
namespace StaticSite.Log

structure Line where
  topic : Text
  message : Text
  deriving DecidableEq, Repr

def line (topic : String) (message : Text) : Line := ⟨topic.toList, message⟩

def Line.label (l : Line) : Text := '[' :: l.topic ++ [']']

def Line.text (l : Line) : Text := l.label ++ ' ' :: l.message

/-- The longest start of a text that has at most `limit` bytes and ends with a whole character. -/
def truncate : Text → Nat → Text
  | [], _ => []
  | c :: t, limit => if c.utf8Size ≤ limit then c :: truncate t (limit - c.utf8Size) else []

/-- Bytes of a line before its message: two brackets and a space around the topic. -/
def labelLength (topic : Text) : Nat := Text.byteLength topic + 3

def Line.fit (l : Line) (width : Nat) : Text :=
  l.label ++ ' ' :: truncate l.message (width - labelLength l.topic)

def escape : Char := Char.ofNat 0x1B

def colorOf (topic : Text) : Text :=
  let name := Text.lowerAscii topic
  if name = "serve".toList then ['9', '4']
  else if name = "watch".toList then ['9', '2']
  else if name = "error".toList then ['9', '1']
  else if name = "warn".toList then ['9', '5']
  else ['9', '3']

def Line.coloredLabel (l : Line) : Text :=
  [escape, '[', '1', ';'] ++ colorOf l.topic ++ 'm' :: l.label ++ [escape, '[', '0', 'm']

/-- What is printed: the rest of the line is cleared first. -/
def Line.onTerminal (l : Line) (width : Nat) : Text :=
  [escape, '[', 'K'] ++ l.coloredLabel ++ ' ' :: truncate l.message (width - labelLength l.topic) ++
    ['\n']

end StaticSite.Log
