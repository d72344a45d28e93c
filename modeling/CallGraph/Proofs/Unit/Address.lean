import CallGraph.Proofs.Token.Numeral
import CallGraph.Proofs.Unit.Acceptance

/-!
# Addresses from host names and ports

A call to a node that names a host and a port shows an address put together from the two.  What is checked is
the number that the port reads as, but what is written is the port as it was given.

* `IsPort` — how a port is written: digits, and perhaps a plus sign;
* `exists_port_display`, `isHostname_iff` — what the checks say about ports and host names;
* `Node.ReachedAt`, `Node.reachedAt_address?` — the address of a node that passes the check;
* `addresses_checked` — **the addresses of a trace**: a port is written in digits alone unless it was given as
  a text with a plus sign.
-/

namespace CallGraph

/-! ### Ports -/

/-- How a port is written: digits with a value from 1 to 65535, and perhaps a plus sign before them. -/
structure IsPort (sign digits : List Char) : Prop where
  /-- The sign. -/
  sign_eq : sign = [] ∨ sign = ['+']
  /-- There is a digit. -/
  digits_ne_nil : digits ≠ []
  /-- There are only digits. -/
  isDigit : ∀ c ∈ digits, c.isDigit = true
  /-- The value is a port. -/
  range : 1 ≤ decimalValue [] digits ∧ decimalValue [] digits ≤ 65535

/-- The port is given as a text that begins with a plus sign. -/
def PlusSigned (port : Value) : Prop :=
  ∃ rest, port = .text (.ofList ('+' :: rest))

section

variable {v : Value} {sign digits text : List Char} {n : Nat}

/-- A text that reads as a number is a run of digits, and perhaps a plus sign before it. -/
theorem exists_digits_of_decimal? (h : decimal? text = some n) :
    ∃ sign digits, text = sign ++ digits ∧ (sign = [] ∨ sign = ['+']) ∧ digits ≠ [] ∧
      (∀ c ∈ digits, c.isDigit = true) ∧ decimalValue [] digits = n := by
  have hread : ∀ digits : List Char, (if (!digits.isEmpty && digits.all Char.isDigit) = true
      then some (digitsValue digits) else none) = some n →
      digits ≠ [] ∧ (∀ c ∈ digits, c.isDigit = true) ∧ decimalValue [] digits = n := by
    intro digits hdigits
    rw [Option.ite_none_right_eq_some, Bool.and_eq_true, Bool.not_eq_true', List.isEmpty_eq_false_iff,
      List.all_eq_true, Option.some.injEq] at hdigits
    obtain ⟨⟨hne, hall⟩, rfl⟩ := hdigits
    exact ⟨hne, hall, by simp [decimalValue_eq]⟩
  cases text with
  | nil => exact ⟨[], [], rfl, .inl rfl, hread [] h⟩
  | cons c rest =>
    by_cases hc : c = '+'
    · subst hc
      exact ⟨['+'], rest, rfl, .inr rfl, hread rest h⟩
    · refine ⟨[], c :: rest, rfl, .inl rfl, hread (c :: rest) ?_⟩
      simpa [decimal?, hc] using h

/-- **A port is displayed** as digits, with a plus sign before them if that is how it is given. -/
theorem exists_port_display (h : port? v = some n) :
    ∃ sign digits, IsPort sign digits ∧ v.display = .ofList (sign ++ digits) ∧
      (sign = ['+'] ↔ PlusSigned v) := by
  unfold port? at h
  dsimp only at h
  obtain ⟨hread, hrange⟩ := Option.filter_eq_some_iff.1 h
  rw [Bool.and_eq_true, decide_eq_true_eq, decide_eq_true_eq] at hrange
  cases v with
  | number m =>
    obtain ⟨hm, hn⟩ := Option.ite_none_right_eq_some.1 hread
    have hpositive : 0 < m ∧ m ≤ 65535 := by
      have := Option.some.inj hn
      omega
    obtain ⟨sign, digits, hnumeral, hdisplay, hvalue⟩ := exists_numeral_display m
    -- A minus sign would make the value negative.
    obtain rfl : sign = [] := by
      rcases hnumeral.sign_eq with rfl | rfl
      · rfl
      · rw [decimalValue_eq] at hvalue
        have hnegative : -(digitsValue digits : Int) = m := hvalue
        omega
    refine ⟨[], digits, ⟨.inl rfl, hnumeral.digits_ne_nil, hnumeral.isDigit, by omega⟩, ?_, by simp [PlusSigned]⟩
    rw [← hdisplay, String.ofList_toList]
  | text content =>
    obtain ⟨sign, digits, heq, hsign, hne, hdigit, hvalue⟩ := exists_digits_of_decimal? hread
    have hcontent : content = .ofList (sign ++ digits) := by rw [← heq, String.ofList_toList]
    refine ⟨sign, digits, ⟨hsign, hne, hdigit, by omega⟩, hcontent, ?_⟩
    rcases hsign with rfl | rfl
    · refine iff_of_false (by simp) ?_
      rintro ⟨rest, htext⟩
      rw [hcontent, Value.text.injEq, String.ofList_inj, List.nil_append] at htext
      exact absurd (hdigit '+' (htext ▸ List.mem_cons_self)) (by decide)
    · exact iff_of_true rfl ⟨digits, congrArg Value.text hcontent⟩
  | word name => cases hread

end

/-! ### Host names -/

/-- A host name is a text or a word that is not empty and has no quote. -/
theorem isHostname_iff {v : Value} : isHostname v = true ↔
    (∀ n, v ≠ .number n) ∧ v.display ≠ "" ∧ '"' ∉ v.display.toList := by
  unfold isHostname
  cases v <;> simp [Value.asText?, Value.display]

/-! ### Nodes -/

/-- What a node that passes the check says about its port and its host name. -/
theorem checkAddress_eq_nil {required : Bool} {n : Node} (h : checkAddress required n = []) :
    (∀ v, n.attribute? "port" = some v → ∃ number, port? v = some number) ∧
      ∀ v, n.attribute? "hostname" = some v → isHostname v = true := by
  unfold checkAddress at h
  dsimp only at h
  rw [List.append_eq_nil_iff, List.append_eq_nil_iff, Option.toList_eq_nil_iff, Option.map_eq_none_iff,
    Option.toList_eq_nil_iff, Option.map_eq_none_iff, Option.filter_eq_none_iff,
    Option.filter_eq_none_iff] at h
  obtain ⟨⟨hport, hhostname⟩, -⟩ := h
  constructor
  · intro v hv
    simpa [Option.ne_none_iff_exists'] using hport v hv
  · intro v hv
    simpa using hhostname v hv

/-- The path of the node, or the one that is taken instead. -/
def Node.path (n : Node) : String := ((n.attribute? "path").map Value.display).getD defaultPath

/-- The address is `http://`, a host name, a colon, a port and the path of the node.  The port is written
with a plus sign if that is how it is given. -/
def Node.ReachedAt (n : Node) (hostname port : Value) (address : Option String) : Prop :=
  ∃ host sign digits, address = some ("http://" ++ host ++ ":" ++ .ofList (sign ++ digits) ++ n.path) ∧
    hostname.display = host ∧ host ≠ "" ∧ '"' ∉ host.toList ∧
    port.display = .ofList (sign ++ digits) ∧ IsPort sign digits ∧ (sign = ['+'] ↔ PlusSigned port)

/-- **The address of a node** that passes the check and has no `url`. -/
theorem Node.reachedAt_address? {n : Node} {hostname port : Value} {required : Bool}
    (h : checkAddress required n = []) (hurl : n.attribute? "url" = none)
    (hhostname : n.attribute? "hostname" = some hostname) (hport : n.attribute? "port" = some port) :
    n.ReachedAt hostname port n.address? := by
  obtain ⟨hports, hhostnames⟩ := checkAddress_eq_nil h
  obtain ⟨number, hnumber⟩ := hports port hport
  obtain ⟨sign, digits, hwritten, hdisplay, hplus⟩ := exists_port_display hnumber
  obtain ⟨-, hne, hquote⟩ := isHostname_iff.1 (hhostnames hostname hhostname)
  refine ⟨hostname.display, sign, digits, ?_, rfl, hne, hquote, hdisplay, hwritten, hplus⟩
  rw [← hdisplay]
  unfold Node.address?
  rw [hurl, hhostname, hport]
  rfl

/-! ### Traces -/

/-- All calls of a trace. -/
def Trace.calls (t : Trace) : List Call :=
  t.steps.flatMap fun step => step.stages.flatMap Stage.calls

/-- Every call shows the address of the node that is called. -/
theorem Graph.address_of_mem_calls {g : Graph} {nodes : List Node} {call : Call}
    (h : call ∈ (g.traceOf nodes).calls) : call.address = (g.node? call.target).bind Node.address? := by
  obtain ⟨step, hstep, hcall⟩ := List.mem_flatMap.1 h
  obtain ⟨n, -, rfl⟩ := List.mem_map.1 hstep
  obtain ⟨stage, hstage, hcall⟩ := List.mem_flatMap.1 hcall
  obtain ⟨s, -, rfl⟩ := List.mem_map.1 hstage
  obtain ⟨e, -, rfl⟩ := List.mem_map.1 hcall
  rfl

/-- **The addresses of a trace.**  A unit is rejected or refused for a cycle, or it leaves a trace.  Then each
call to a node without a `url`, but with a host name and a port, shows `http://`, the host name, a colon, the
port and the path.

* The host name is not empty and has no quote.
* The port has only digits, and its value is from 1 to 65535; but if it was given as a text with a plus sign,
  the plus sign stands before the digits. -/
theorem addresses_checked {σ : Type} (c : Configuration) (executor : Executor σ) (u : SourceUnit) (s : σ) :
    let result := (execute c executor u s).1
    (∃ errors, errors ≠ [] ∧ result = .error (.rejected errors)) ∨
    (∃ path, result = .error (.cycle path)) ∨
    ∃ t, Leaves result t ∧ ∀ call ∈ t.calls, ∀ n hostname port,
      u.graph.node? call.target = some n → n.attribute? "url" = none →
      n.attribute? "hostname" = some hostname → n.attribute? "port" = some port →
      n.ReachedAt hostname port call.address := by
  intro result
  rcases execution_leaves c executor u s with hrejected | hcycle | ⟨hobstacles, nodes, hleaves⟩
  · exact .inl hrejected
  · exact .inr (.inl hcycle)
  · refine .inr (.inr ⟨_, hleaves, fun call hcall n hostname port hn hurl hhostname hport => ?_⟩)
    rw [Graph.address_of_mem_calls hcall, hn]
    exact Node.reachedAt_address? (checkAddress_of_obstacles hobstacles hn) hurl hhostname hport

/-- A port with a plus sign passes the check and is written into the address as it is. -/
theorem addresses_keep_plus :
    let node : Node := ⟨"b", .ofList [("hostname", .word "h"), ("port", .text "+80")], default⟩
    let graph : Graph := { nodes := [⟨"a", {}, default⟩, node], edges := [⟨"a", "b", default, default⟩] }
    (execute {} simulate ⟨graph, []⟩ ()).1.toOption.map (fun e => e.trace.calls.map Call.address) =
        some [some ("http://" ++ "h" ++ ":" ++ "+80" ++ defaultPath)] ∧
      "+80".toList.all Char.isDigit = false := by
  decide

end CallGraph
