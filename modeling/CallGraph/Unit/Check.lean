import CallGraph.Graph.Basic
import CallGraph.Text.Decimal

/-!
# Value checks

Some settings and node attributes only take certain values.  `checkSettings` and `checkAddresses`
find the ones that are out of range, in order of assignment and of declaration.
-/

namespace CallGraph

/-- Whether the number is a response code. -/
def isResponseCode (n : Int) : Bool := 1 ≤ n && n ≤ 599

/-- Whether the number is a length of time. -/
def isDuration (n : Int) : Bool := 0 ≤ n

/-- Whether the number is a part of a second, in microseconds. -/
def isMicroseconds (n : Int) : Bool := 0 ≤ n && n < 1000000

/-- The finding about a response setting that is no response code. -/
def invalidResponse (v : Located Value) : Diagnostic where
  severity := .error
  code := some .invalidResponse
  message := "`" ++ v.value.display ++ "` is not an HTTP response code"
  labels := [.primary v.span "expected a number between 1 and 599"]

/-- The finding about a delay or a timeout that is out of range. -/
def invalidTiming (key : String) (v : Located Value) (expected : String)
    (help : Option String) : Diagnostic where
  severity := .error
  code := some .invalidTiming
  message := "invalid value `" ++ v.value.display ++ "` for `" ++ key ++ "`"
  labels := [.primary v.span expected]
  help := help

/-- What is wrong with one setting. -/
def checkSetting (key : String) (v : Located Value) : Option Diagnostic :=
  let holds (test : Int → Bool) := v.value.asNumber?.any test
  match key with
  | "response" => if holds isResponseCode then none else some (invalidResponse v)
  | "predelay" | "postdelay" =>
    if holds isDuration then none
    else some (invalidTiming key v "expected a non-negative number of milliseconds" none)
  | "timeout_sec" =>
    if holds isDuration then none
    else some (invalidTiming key v "expected a non-negative number of seconds" none)
  | "timeout_usec" =>
    if holds isMicroseconds then none
    else some (invalidTiming key v "expected microseconds below one million"
      (some "whole seconds go into `timeout_sec`"))
  | _ => none

/-- What is wrong with the settings, in order of first assignment. -/
def checkSettings (g : Graph) : List Diagnostic :=
  g.settings.entries.filterMap fun (key, v) => checkSetting key v

/-- The number written in decimal digits, perhaps behind a plus sign. -/
def decimal? (text : List Char) : Option Nat :=
  let digits := match text with
    | '+' :: rest => rest
    | text => text
  if !digits.isEmpty && digits.all Char.isDigit then
    some (digitsValue digits)
  else none

/-- The port that a value stands for: a number from 1 to 65535, or a quoted text that reads as
one. -/
def port? (v : Value) : Option Nat :=
  let number := match v with
    | .number n => if 0 ≤ n then some n.toNat else none
    | .text content => decimal? content.toList
    | .word _ => none
  number.filter fun n => 0 < n && n ≤ 65535

/-- Whether a value is a host name: characters without a quote among them, at least one. -/
def isHostname (v : Value) : Bool :=
  v.asText?.any fun name => !name.isEmpty && !name.toList.contains '"'

/-- Whether the attributes of a node say where it can be reached. -/
def hasAddress (n : Node) : Bool :=
  (n.attribute? "url").isSome ||
    ((n.attribute? "hostname").isSome && (n.attribute? "port").isSome)

/-- The finding about an address attribute with a value that it cannot take. -/
def invalidAttribute (n : Node) (key : String) (v : Value) (help : String) : Diagnostic where
  severity := .error
  code := some .invalidAddress
  message := "invalid `" ++ key ++ "` value `" ++ v.display ++ "` for node `" ++ n.name ++ "`"
  labels := [.primary n.span "declared here"]
  help := some help

/-- The finding about a node that cannot be reached. -/
def missingAddress (n : Node) : Diagnostic where
  severity := .error
  code := some .missingAddress
  message := "node `" ++ n.name ++ "` has no address"
  labels := [.primary n.span "declared here"]
  help := some "add a `url`, or both `hostname` and `port`"

/-- What is wrong with the address of one node. -/
def checkAddress (required : Bool) (n : Node) : List Diagnostic :=
  let port := (n.attribute? "port").filter fun v => (port? v).isNone
  let hostname := (n.attribute? "hostname").filter fun v => !isHostname v
  (port.map fun v => invalidAttribute n "port" v "ports are numbers between 1 and 65535").toList ++
    (hostname.map fun v => invalidAttribute n "hostname" v
      "hostnames are non-empty and contain no double quotes").toList ++
    (if required && !hasAddress n then [missingAddress n] else [])

/-- What is wrong with the addresses of the nodes, in order of declaration. -/
def checkAddresses (required : Bool) (g : Graph) : List Diagnostic :=
  g.nodes.flatMap (checkAddress required)

end CallGraph
