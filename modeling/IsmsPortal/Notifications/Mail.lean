import IsmsPortal.Foundation.Checks
import IsmsPortal.Foundation.Interaction
import IsmsPortal.Foundation.Throughout
import IsmsPortal.Notifications.Smtp
import IsmsPortal.Secrets.Encryption

/-! # Notifications by mail

An administrator saves the account of a mail server; a notification opens a connection and speaks
with the server, which may answer anything. The server reads lines, and what it reads is the
conversation that was meant: no text of a notification and no setting adds a line to it, the message
comes out as it was written, and secrets stay off a connection that is to be encrypted first.
-/

namespace Notifications.Mail

open Foundation Smtp

/-! ## Settings -/

structure StoredMail where
  smtpHost : String
  smtpPort : Nat
  smtpSecure : Bool
  smtpStartTls : Bool
  smtpUsername : String
  smtpPasswordEncrypted : Option (List Char)
  smtpFrom : String
  smtpRecipients : List String

/-- The fields of a request to save. -/
structure MailInput where
  smtpHost : Option String
  smtpPort : Option String
  smtpSecure : Option Bool
  smtpStartTls : Option Bool
  smtpUsername : Option String
  smtpPassword : Option String
  smtpFrom : Option String
  smtpRecipients : Option String

inductive MailFailure
  | badRequest (message : String)
  | rejected (message : String)
  | secret (failure : Secrets.Failure)
  /-- `"Cannot read properties of null (reading 'join')"` -/
  | nothingToJoin
deriving DecidableEq, Repr

def mask : String := "********"

/-- `/^[^\s@]+@[^\s@]+\.[^\s@]+$/u`. -/
def isAddress (text : String) : Bool :=
  match text.toList.splitOn '@' with
  | [mailbox, domain] =>
      mailbox ≠ [] && mailbox.all (fun c => !JsString.isWhiteSpace c) &&
        (domain.all (fun c => !JsString.isWhiteSpace c) && '.' ∈ domain.tail.dropLast)
  | _ => false

/-- `Number(port || 587)`, where it is a port. -/
def portOf (port : Option String) : Option Nat :=
  match port.filter (· ≠ "") with
  | none => some 587
  | some text =>
      match Double.number text.toList with
      | .finite value => if value.den = 1 ∧ 1 ≤ value ∧ value ≤ 65535 then some value.num.toNat
          else none
      | .nan | .infinity _ => none

/-- The recipients between semicolons and commas. -/
def recipientsOf (recipients : Option String) : List String :=
  ((((recipients.getD "").toList.splitOnP fun c => c = ';' || c = ',').map fun part =>
    JsString.trim (String.ofList part)).filter (· ≠ ""))

variable (crypto : Secrets.CryptoService)

/-- A secret that is given, or the one before where it is left out or shown as the mask. -/
def savedSecret (iv : Vector UInt8 12) (value : Option String) (prior : Option (List Char)) :
    Except MailFailure (Option (List Char)) :=
  let value := JsString.trim (value.getD "")
  if value = "" ∨ value = mask then .ok prior
  else (some <$> crypto.encrypt iv value.toList).mapError .secret

/-- The row that a request writes; a request that fails writes none. -/
def save (previous : Option StoredMail) (iv : Vector UInt8 12) (input : MailInput) :
    Except MailFailure StoredMail := do
  let some port := portOf input.smtpPort | throw (.badRequest "Invalid SMTP port")
  let recipients := recipientsOf input.smtpRecipients
  if recipients.any (!isAddress ·) ∨ (input.smtpFrom.filter (· ≠ "")).any (!isAddress ·) then
    throw (.badRequest "Invalid email address")
  let password ← savedSecret crypto iv input.smtpPassword
    (previous.bind StoredMail.smtpPasswordEncrypted)
  return {
    smtpHost := JsString.trim (input.smtpHost.getD "")
    smtpPort := port
    smtpSecure := input.smtpSecure.getD false
    smtpStartTls := input.smtpStartTls.getD false
    smtpUsername := JsString.trim (input.smtpUsername.getD "")
    smtpPasswordEncrypted := password
    smtpFrom := JsString.trim (input.smtpFrom.getD "")
    smtpRecipients := recipients }

/-- The row after a request, whether it fails or not. -/
def afterSave (stored : Option StoredMail) (request : Vector UInt8 12 × MailInput) :
    Option StoredMail :=
  match save crypto stored request.1 request.2 with
  | .ok row => some row
  | .error _ => stored

/-! ## A notification -/

inductive Op
  | connect (secure : Bool) (host : String) (port : Nat)
  | upgrade (servername : String)
  | write (secure : Bool) (text : List Char)
  | read (secure : Bool) (expected : Nat)
  | destroy

/-- A reply that is not the expected one rejects the read, with a message. -/
def Op.Answer : Op → Type
  | read _ _ => Except String Unit
  | connect .. | upgrade _ | write .. | destroy => Unit

abbrev Attempt := ExceptT MailFailure (Calls Op Op.Answer)

abbrev Trace := List (Calls.Event Op Op.Answer)

def lineEnd : List Char := ['\r', '\n']

/-- `Buffer.from(text).toString("base64")`. -/
def base64 (text : List Char) : List Char := Base64.encode (Utf8.encode text)

def awaitReply (secure : Bool) (expected : Nat) : Attempt Unit := do
  let reply ← ExceptT.lift (Calls.perform (Op.read secure expected))
  liftM (reply.mapError MailFailure.rejected)

/-- A write, and the reply to it. -/
def transmit (secure : Bool) (text : List Char) (code : Nat) : Attempt Unit := do
  ExceptT.lift (Calls.perform (Op.write secure text))
  awaitReply secure code

def command (secure : Bool) (value : List Char) (code : Nat) : Attempt Unit :=
  transmit secure (value ++ lineEnd) code

/-- `this.decrypt(value)`. -/
def decrypt (value : Option (List Char)) : Except MailFailure (List Char) :=
  match value.filter (· ≠ []) with
  | some text => (crypto.decrypt text).mapError .secret
  | none => .ok []

/-- `text.match(/.{1,76}/gu)`. -/
def bodyLines (html : List Char) : Except MailFailure (List Line) :=
  if base64 html = [] then .error .nothingToJoin
  else .ok (Regrouping.allGroups 76 (base64 html))

def headers (sender : String) (recipients : List String) (subject : List Char) : List Line :=
  ["From: ".toList ++ sender.toList,
    "To: ".toList ++ ", ".toList.intercalate (recipients.map String.toList),
    "Subject: =?UTF-8?B?".toList ++ base64 subject ++ "?=".toList,
    "MIME-Version: 1.0".toList,
    "Content-Type: text/html; charset=utf-8".toList,
    "Content-Transfer-Encoding: base64".toList]

/-- What is written after `DATA`. -/
def messageText (headers body : List Line) : List Char :=
  lineEnd.intercalate headers ++ lineEnd ++ lineEnd ++ lineEnd.intercalate body ++ lineEnd ++
    ['.'] ++ lineEnd

/-- The first line to the server. -/
def greeting (hostname : String) : List Char := "EHLO ".toList ++ hostname.toList

namespace StoredMail

variable (config : StoredMail) (hostname : String)

/-- Change to an encrypted connection if that is asked for, and say whether there is one. -/
def secured : Attempt Bool :=
  if config.smtpStartTls && !config.smtpSecure then do
    command false "STARTTLS".toList 220
    ExceptT.lift (Calls.perform (Op.upgrade config.smtpHost))
    command true (greeting hostname) 250
    pure true
  else pure config.smtpSecure

def authenticate (secure : Bool) : Attempt Unit :=
  if config.smtpUsername ≠ "" then do
    command secure "AUTH LOGIN".toList 334
    command secure (base64 config.smtpUsername.toList) 334
    let password ← liftM (decrypt crypto config.smtpPasswordEncrypted)
    command secure (base64 password) 235
  else pure ()

end StoredMail

def address (recipient : String) : List Char := "RCPT TO:<".toList ++ recipient.toList ++ ['>']

/-- The loop over the recipients. -/
def addressAll (secure : Bool) : List String → Attempt Unit
  | [] => pure ()
  | recipient :: recipients => do
      command secure (address recipient) 250
      addressAll secure recipients

/-- The settings with a host, a sender and recipients. -/
def complete (stored : Option StoredMail) : Except MailFailure StoredMail :=
  match stored with
  | some config =>
      if config.smtpHost = "" ∨ config.smtpFrom = "" ∨ config.smtpRecipients = [] then
        .error (.badRequest "SMTP is incomplete")
      else .ok config
  | none => .error (.badRequest "SMTP is incomplete")

namespace StoredMail

variable (config : StoredMail)

/-- What is done once the connection is as it should be. -/
def transact (secure : Bool) (subject html : List Char) : Attempt Unit := do
  config.authenticate crypto secure
  command secure ("MAIL FROM:<".toList ++ config.smtpFrom.toList ++ ['>']) 250
  addressAll secure config.smtpRecipients
  command secure "DATA".toList 354
  let body ← liftM (bodyLines html)
  transmit secure (messageText (headers config.smtpFrom config.smtpRecipients subject) body) 250
  command secure "QUIT".toList 221
  ExceptT.lift (Calls.perform Op.destroy)

def converse (hostname : String) (subject html : List Char) : Attempt Unit := do
  ExceptT.lift (Calls.perform (Op.connect config.smtpSecure config.smtpHost config.smtpPort))
  awaitReply config.smtpSecure 220
  command config.smtpSecure (greeting hostname) 250
  let secure ← config.secured hostname
  config.transact crypto secure subject html

end StoredMail

/-- Of a message in HTML, which the templates make of the notification. -/
def email (hostname : String) (stored : Option StoredMail) (subject html : List Char) :
    Attempt Unit := do
  let config ← liftM (complete stored)
  config.converse crypto hostname subject html

/-! ## What the server reads -/

inductive Item
  | command (line : Line)
  | credential (line : Line)
  | message (lines : List Line)
deriving DecidableEq

/-- What the server takes its next line for. -/
inductive Mode
  | commands
  | credentials (left : Nat)
  | data (got : List Line)

/-- What comes after a command. -/
def following (line : Line) : Mode :=
  if line = "AUTH LOGIN".toList then .credentials 1
  else if line = "DATA".toList then .data [] else .commands

def credentialsLeft : Nat → Mode
  | 0 => .commands
  | left + 1 => .credentials left

/-- A line of a message, without the dot that protects another one. -/
def unstuffed : Line → Line
  | '.' :: line => line
  | line => line

def listen : Mode → List Line → List Item
  | _, [] => []
  | .commands, line :: lines => .command line :: listen (following line) lines
  | .credentials left, line :: lines => .credential line :: listen (credentialsLeft left) lines
  | .data got, line :: lines =>
      if line = ['.'] then .message got :: listen .commands lines
      else listen (.data (got ++ [unstuffed line])) lines

/-- The texts that were written, each with whether its connection is encrypted. -/
def written (trace : Trace) : List (Bool × List Char) :=
  trace.filterMap fun event =>
    match event.op with
    | .write secure text => some (secure, text)
    | _ => none

/-- The text that was written to one of the connections. -/
def sent (secure : Bool) (trace : Trace) : List Char :=
  ((written trace).filter (·.1 = secure)).flatMap Prod.snd

/-- What the server makes of the lines of a connection. -/
def heard (secure : Bool) (trace : Trace) : List Item :=
  listen .commands (linesOf (sent secure trace))

/-- The subject that a line gives in this encoding. -/
def subjectOf (line : Line) : Option (List UInt8) :=
  if "Subject: =?UTF-8?B?".toList <+: line ∧ "?=".toList <:+ line then
    some (Base64.decode ((line.drop 19).take (line.length - 21)))
  else none

/-- The subject and the body of a message. -/
def readMail (lines : List Line) : Option (List UInt8 × List UInt8) :=
  (lines.findSome? subjectOf).map fun subject =>
    (subject, Base64.decode (lines.dropWhile (· ≠ [])).flatten)

/-! ## The conversation that is meant -/

section Meant

variable (hostname : String) (config : StoredMail) (password subject html : List Char)

def encrypted : Bool := config.smtpSecure || config.smtpStartTls

def mailLines : List Line :=
  headers config.smtpFrom config.smtpRecipients subject ++ [] ::
    Regrouping.allGroups 76 (base64 html)

/-- The part with the secrets. -/
def authentication : List Item :=
  if config.smtpUsername ≠ "" then
    [.command "AUTH LOGIN".toList, .credential (base64 config.smtpUsername.toList),
      .credential (base64 password)]
  else []

/-- The part after the greeting, with the secrets and the mail. -/
def transaction : List Item :=
  authentication config password ++
    .command ("MAIL FROM:<".toList ++ config.smtpFrom.toList ++ ['>']) ::
      config.smtpRecipients.map (fun recipient => .command (address recipient)) ++
        [.command "DATA".toList, .message (mailLines config subject html),
          .command "QUIT".toList]

/-- Each part with its connection. -/
def conversation : List (Bool × Item) :=
  (config.smtpSecure, .command (greeting hostname)) ::
    (if config.smtpStartTls && !config.smtpSecure then
      [(false, .command "STARTTLS".toList), (true, .command (greeting hostname))] else []) ++
    (transaction config password subject html).map (encrypted config, ·)

/-- The parts on one connection. -/
def meant (secure : Bool) : List Item :=
  ((conversation hostname config password subject html).filter (·.1 = secure)).map Prod.snd

end Meant

/-! ## Lines -/

/-- Lines that no server could take for two. -/
def Unbroken (line : Line) : Prop := ∀ c ∈ line, c ≠ '\r' ∧ c ≠ '\n'

theorem Unbroken.append {line more : Line} (hline : Unbroken line) (hmore : Unbroken more) :
    Unbroken (line ++ more) := fun c hc =>
  (List.mem_append.mp hc).elim (hline c) (hmore c)

/-- The text of a part. -/
def Item.text : Item → List Char
  | command line | credential line => line ++ lineEnd
  | message lines => lines.flatMap (· ++ lineEnd) ++ ['.'] ++ lineEnd

theorem takeLine_unbroken {line : Line} (h : Unbroken line) (rest : List Char) :
    takeLine (line ++ lineEnd ++ rest) = some (line, rest) := by
  refine takeLine_eq_some_iff.mpr ⟨fun hend => ?_, rfl⟩
  exact (h '\r' (hend.subset List.mem_cons_self)).1 rfl

theorem linesOf_nil : linesOf [] = [] := by
  rw [linesOf, Framing.frames_of_none rfl]

theorem linesOf_unbroken {line : Line} (h : Unbroken line) (rest : List Char) :
    linesOf (line ++ lineEnd ++ rest) = line :: linesOf rest := by
  have hframes : lineFraming.frames (line ++ lineEnd ++ rest) =
      (line :: (lineFraming.frames rest).1, (lineFraming.frames rest).2) :=
    Framing.frames_of_some (takeLine_unbroken h rest)
  rw [linesOf, hframes]
  rfl

theorem linesOf_lines {lines : List Line} (h : ∀ line ∈ lines, Unbroken line) (rest : List Char) :
    linesOf (lines.flatMap (· ++ lineEnd) ++ rest) = lines ++ linesOf rest := by
  induction lines with
  | nil => rfl
  | cons line lines ih =>
      obtain ⟨hline, hlines⟩ := List.forall_mem_cons.mp h
      rw [List.flatMap_cons, List.append_assoc, linesOf_unbroken hline, ih hlines]
      rfl

/-- Parts in an order in which the server expects them. -/
def Regular : Mode → List Item → Prop
  | _, [] => True
  | .commands, .command line :: items => Unbroken line ∧ Regular (following line) items
  | .credentials left, .credential line :: items =>
      Unbroken line ∧ Regular (credentialsLeft left) items
  | .data [], .message lines :: items =>
      (∀ line ∈ lines, Unbroken line ∧ line.head? ≠ some '.') ∧ Regular .commands items
  | _, _ :: _ => False

theorem Regular.of_begins {mode : Mode} {items more : List Item} (h : Regular mode more)
    (hbegins : items <+: more) : Regular mode items := by
  induction items generalizing mode more with
  | nil => cases mode <;> trivial
  | cons item items ih =>
      obtain ⟨rest, rfl⟩ := hbegins
      cases mode with
      | commands =>
          cases item with
          | command line => exact ⟨h.1, ih h.2 (List.prefix_append items rest)⟩
          | credential line => exact h.elim
          | message lines => exact h.elim
      | credentials left =>
          cases item with
          | command line => exact h.elim
          | credential line => exact ⟨h.1, ih h.2 (List.prefix_append items rest)⟩
          | message lines => exact h.elim
      | data got =>
          cases got with
          | cons line got => cases item <;> exact h.elim
          | nil =>
              cases item with
              | command line => exact h.elim
              | credential line => exact h.elim
              | message lines => exact ⟨h.1, ih h.2 (List.prefix_append items rest)⟩

/-- A message is over at the line with a dot alone, which none of its lines is. -/
theorem listen_data {lines : List Line}
    (h : ∀ line ∈ lines, Unbroken line ∧ line.head? ≠ some '.') (got rest : List Line) :
    listen (.data got) (lines ++ ['.'] :: rest) = .message (got ++ lines) :: listen .commands rest := by
  induction lines generalizing got with
  | nil => rw [List.nil_append, listen, if_pos rfl, List.append_nil]
  | cons line lines ih =>
      obtain ⟨⟨-, hdot⟩, hlines⟩ := List.forall_mem_cons.mp h
      have hplain : unstuffed line = line := by
        unfold unstuffed
        split
        · exact absurd rfl hdot
        · rfl
      have hopen : line ≠ ['.'] := by
        rintro rfl
        exact hdot rfl
      rw [List.cons_append, listen, if_neg hopen, hplain, ih hlines, List.append_assoc]
      rfl

/-- The server reads the parts that were written. -/
theorem listen_text {mode : Mode} {items : List Item} (h : Regular mode items) :
    listen mode (linesOf (items.flatMap Item.text)) = items := by
  induction items generalizing mode with
  | nil =>
      rw [List.flatMap_nil, linesOf_nil]
      cases mode <;> rfl
  | cons item items ih =>
      rw [List.flatMap_cons]
      cases mode with
      | commands =>
          cases item with
          | command line => rw [Item.text, linesOf_unbroken h.1, listen, ih h.2]
          | credential line => exact h.elim
          | message lines => exact h.elim
      | credentials left =>
          cases item with
          | command line => exact h.elim
          | credential line => rw [Item.text, linesOf_unbroken h.1, listen, ih h.2]
          | message lines => exact h.elim
      | data got =>
          cases got with
          | cons line got => cases item <;> exact h.elim
          | nil =>
              cases item with
              | command line => exact h.elim
              | credential line => exact h.elim
              | message lines =>
                  have hdot : Unbroken ['.'] := by simp [Unbroken]
                  rw [Item.text, List.append_assoc, List.append_assoc, linesOf_lines
                    (fun line hline => (h.1 line hline).1), ← List.append_assoc, linesOf_unbroken
                    hdot, listen_data h.1, List.nil_append, ih h.2]

/-! ## What the parts of the program write -/

/-- A read that was rejected. -/
def isRefused : Calls.Event Op Op.Answer → Bool
  | ⟨.read _ _, .error _⟩ => true
  | _ => false

/-- Every write waits for its reply, and nothing is done after a reply that is refused. -/
def Turns (trace : Trace) : Prop :=
  Throughout (fun _ event after =>
    (∀ secure text, event.op = .write secure text →
      ∃ code reply rest, after = ⟨.read secure code, reply⟩ :: rest) ∧
    (isRefused event = true → after = [])) trace

/-- What a part of the program writes, as far as it comes, and what it returns. -/
structure Speaks (program : Attempt α) (texts : List (Bool × List Char)) (post : α → Prop) :
    Prop where
  begins : ∀ trace result, Calls.Runs program.run trace result →
    written trace <+: texts ∧ Turns trace
  ends : ∀ trace value, Calls.Runs program.run trace (.ok value) →
    written trace = texts ∧ post value ∧ ∀ event ∈ trace, isRefused event = false

theorem written_append (first second : Trace) :
    written (first ++ second) = written first ++ written second := List.filterMap_append

theorem Turns.append {first second : Trace} (hfirst : Turns first)
    (hcalm : ∀ event ∈ first, isRefused event = false) (hsecond : Turns second) :
    Turns (first ++ second) := by
  refine throughout_append (hfirst.mono fun before event after htrace h => ⟨?_, ?_⟩) hsecond
  · intro secure text hop
    obtain ⟨code, reply, rest, rfl⟩ := h.1 secure text hop
    exact ⟨code, reply, rest ++ second, rfl⟩
  · intro hrefused
    rw [hcalm event (htrace ▸ by simp)] at hrefused
    cases hrefused

namespace Speaks

variable {texts more : List (Bool × List Char)} {post : α → Prop} {after : β → Prop}

theorem bind {program : Attempt α} {rest : α → Attempt β} (hprogram : Speaks program texts post)
    (hrest : ∀ value, post value → Speaks (rest value) more after) :
    Speaks (program >>= rest) (texts ++ more) after where
  begins trace result h := by
    rcases Calls.runs_attempt_bind_iff.mp h with ⟨error, hfirst, -⟩ | ⟨first, second, value, rfl,
      hfirst, hsecond⟩
    · obtain ⟨hbegins, hturns⟩ := hprogram.begins trace _ hfirst
      exact ⟨hbegins.trans (List.prefix_append texts more), hturns⟩
    · obtain ⟨hwritten, hpost, hcalm⟩ := hprogram.ends first value hfirst
      obtain ⟨hbegins, hturns⟩ := (hrest value hpost).begins second result hsecond
      rw [written_append, hwritten]
      exact ⟨(List.prefix_append_right_inj texts).mpr hbegins,
        (hprogram.begins first _ hfirst).2.append hcalm hturns⟩
  ends trace value h := by
    obtain ⟨first, second, middle, rfl, hfirst, hsecond⟩ := Calls.runs_attempt_bind_ok h
    obtain ⟨hwritten, hpost, hcalm⟩ := hprogram.ends first middle hfirst
    obtain ⟨hmore, hafter, hcalm'⟩ := (hrest middle hpost).ends second value hsecond
    rw [written_append, hwritten, hmore]
    exact ⟨rfl, hafter, fun event hevent =>
      (List.mem_append.mp hevent).elim (hcalm event) (hcalm' event)⟩

theorem mono {program : Attempt α} {weaker : α → Prop} (h : Speaks program texts post)
    (himp : ∀ value, post value → weaker value) : Speaks program texts weaker where
  begins := h.begins
  ends trace value hrun :=
    let ⟨hwritten, hpost, hcalm⟩ := h.ends trace value hrun
    ⟨hwritten, himp value hpost, hcalm⟩

theorem check (check : Except MailFailure α) :
    Speaks (liftM check) [] fun value => check = .ok value where
  begins trace result h := by
    obtain ⟨rfl, -⟩ := Calls.runs_check_iff.mp h
    exact ⟨List.nil_prefix, throughout_nil⟩
  ends trace value h := by
    obtain ⟨rfl, hvalue⟩ := Calls.runs_check_iff.mp h
    exact ⟨rfl, hvalue.symm, fun event hevent => absurd hevent List.not_mem_nil⟩

theorem pure (value : α) : Speaks (Pure.pure value : Attempt α) [] (· = value) where
  begins trace result h := by
    obtain ⟨rfl, -⟩ := Calls.runs_pure_iff.mp h
    exact ⟨List.nil_prefix, throughout_nil⟩
  ends trace other h := by
    obtain ⟨rfl, hvalue⟩ := Calls.runs_pure_iff.mp h
    exact ⟨rfl, Except.ok.inj hvalue, fun event hevent => absurd hevent List.not_mem_nil⟩

/-- One call that neither writes nor reads. -/
theorem perform {op : Op} (hwrite : ∀ secure text, op ≠ .write secure text)
    (hread : ∀ answer : op.Answer, isRefused ⟨op, answer⟩ = false) :
    Speaks (ExceptT.lift (Calls.perform op) : Attempt op.Answer) [] fun _ => True := by
  have hevent : ∀ answer : op.Answer, written [⟨op, answer⟩] = [] ∧ Turns [⟨op, answer⟩] := by
    intro answer
    constructor
    · cases op with
      | write secure text => exact absurd rfl (hwrite secure text)
      | connect | upgrade | read | destroy => rfl
    · refine throughout_cons ⟨fun secure text hop => absurd hop (hwrite secure text), ?_⟩
        throughout_nil
      exact fun _ => rfl
  constructor
  · intro trace result h
    obtain ⟨answer, hperform, -⟩ := Calls.runs_lift_iff.mp h
    rw [Calls.runs_perform_iff.mp hperform, (hevent answer).1]
    exact ⟨List.nil_prefix, (hevent answer).2⟩
  · intro trace value h
    obtain ⟨answer, hperform, -⟩ := Calls.runs_lift_iff.mp h
    rw [Calls.runs_perform_iff.mp hperform, (hevent answer).1]
    exact ⟨rfl, trivial, fun event hmem => by rw [List.mem_singleton.mp hmem, hread]⟩

end Speaks

theorem runs_awaitReply {secure : Bool} {code : Nat} {trace : Trace}
    {result : Except MailFailure Unit} (h : Calls.Runs (awaitReply secure code).run trace result) :
    ∃ reply : Except String Unit, trace = [⟨.read secure code, reply⟩] ∧
      result = reply.mapError .rejected := by
  rcases Calls.runs_attempt_bind_iff.mp h with ⟨error, hlift, -⟩ | ⟨first, second, reply, rfl,
    hlift, hcheck⟩
  · obtain ⟨value, -, hvalue⟩ := Calls.runs_lift_iff.mp hlift
    cases hvalue
  · obtain ⟨value, hperform, hvalue⟩ := Calls.runs_lift_iff.mp hlift
    cases hvalue
    obtain ⟨rfl, rfl⟩ := Calls.runs_check_iff.mp hcheck
    exact ⟨reply, by rw [Calls.runs_perform_iff.mp hperform, List.append_nil], rfl⟩

/-- A read is refused where it ends with an error. -/
theorem turns_reply (secure : Bool) (code : Nat) (reply : Except String Unit) :
    Turns [⟨.read secure code, reply⟩] :=
  throughout_cons ⟨nofun, fun _ => rfl⟩ throughout_nil

theorem speaks_awaitReply (secure : Bool) (code : Nat) :
    Speaks (awaitReply secure code) [] fun _ => True where
  begins trace result h := by
    obtain ⟨reply, rfl, -⟩ := runs_awaitReply h
    exact ⟨List.nil_prefix, turns_reply secure code reply⟩
  ends trace value h := by
    obtain ⟨reply, rfl, hreply⟩ := runs_awaitReply h
    cases reply with
    | error message => cases hreply
    | ok reply =>
        refine ⟨rfl, trivial, fun event hevent => ?_⟩
        rw [List.mem_singleton.mp hevent]
        rfl

theorem speaks_transmit (secure : Bool) (text : List Char) (code : Nat) :
    Speaks (transmit secure text code) [(secure, text)] fun _ => True := by
  have hruns : ∀ {trace : Trace} {result : Except MailFailure Unit},
      Calls.Runs (transmit secure text code).run trace result →
        ∃ answer rest, trace = ⟨.write secure text, answer⟩ :: rest ∧
          Calls.Runs (awaitReply secure code).run rest result := by
    intro trace result h
    rcases Calls.runs_attempt_bind_iff.mp h with ⟨error, hlift, -⟩ | ⟨first, second, done, rfl,
      hlift, hreply⟩
    · obtain ⟨value, -, hvalue⟩ := Calls.runs_lift_iff.mp hlift
      cases hvalue
    · obtain ⟨value, hperform, -⟩ := Calls.runs_lift_iff.mp hlift
      exact ⟨value, second, by rw [Calls.runs_perform_iff.mp hperform]; rfl, hreply⟩
  constructor
  · intro trace result h
    obtain ⟨answer, rest, rfl, hreply⟩ := hruns h
    obtain ⟨reply, rfl, -⟩ := runs_awaitReply hreply
    refine ⟨List.prefix_rfl, throughout_cons ⟨?_, nofun⟩ (turns_reply secure code reply)⟩
    rintro channel content ⟨⟩
    exact ⟨code, reply, [], rfl⟩
  · intro trace value h
    obtain ⟨answer, rest, rfl, hreply⟩ := hruns h
    obtain ⟨hnone, -, hcalm⟩ := (speaks_awaitReply secure code).ends rest value hreply
    refine ⟨?_, trivial, List.forall_mem_cons.mpr ⟨rfl, hcalm⟩⟩
    rw [← List.singleton_append, written_append, hnone]
    rfl

/-- A part with its connection, as it is written. -/
def spoken (part : Bool × Item) : Bool × List Char := (part.1, part.2.text)

section Program

variable {crypto} {hostname : String} {config : StoredMail} {subject html : List Char}

theorem speaks_command (secure : Bool) (value : List Char) (code : Nat) :
    Speaks (command secure value code) [spoken (secure, .command value)] fun _ => True :=
  speaks_transmit secure (value ++ lineEnd) code

theorem speaks_secured (config : StoredMail) (hostname : String) :
    Speaks (config.secured hostname) ((if config.smtpStartTls && !config.smtpSecure then
      [(false, .command "STARTTLS".toList), (true, .command (greeting hostname))] else []).map spoken)
      (· = encrypted config) := by
  unfold StoredMail.secured
  by_cases h : config.smtpStartTls && !config.smtpSecure
  · rw [if_pos h, if_pos h]
    have hencrypted : encrypted config = true := by
      rw [Bool.and_eq_true] at h
      rw [encrypted, h.1, Bool.or_true]
    rw [hencrypted]
    refine (speaks_command false _ _).bind fun _ _ => ?_
    have hupgrade : Speaks (ExceptT.lift (Calls.perform (Op.upgrade config.smtpHost)) :
        Attempt Unit) [] fun _ => True := Speaks.perform nofun fun _ => rfl
    refine hupgrade.bind fun _ _ => ?_
    exact (speaks_command true _ _).bind fun _ _ => Speaks.pure true
  · rw [if_neg h, if_neg h]
    have hencrypted : encrypted config = config.smtpSecure := by
      rw [encrypted]
      cases hsecure : config.smtpSecure
      · simpa [hsecure] using h
      · rfl
    rw [hencrypted]
    exact Speaks.pure _

/-- The password, as far as it is decrypted. -/
def knownPassword (crypto : Secrets.CryptoService) (config : StoredMail) : List Char :=
  match decrypt crypto config.smtpPasswordEncrypted with
  | .ok password => password
  | .error _ => []

theorem speaks_authenticate (crypto : Secrets.CryptoService) (config : StoredMail) (secure : Bool) :
    Speaks (config.authenticate crypto secure)
      (((authentication config (knownPassword crypto config)).map (secure, ·)).map spoken)
      fun _ => config.smtpUsername ≠ "" →
        decrypt crypto config.smtpPasswordEncrypted = .ok (knownPassword crypto config) := by
  unfold StoredMail.authenticate authentication
  by_cases h : config.smtpUsername ≠ ""
  · rw [if_pos h, if_pos h]
    refine (speaks_command secure _ _).bind fun _ _ => ?_
    refine (speaks_transmit secure _ _).bind fun _ _ => ?_
    refine (Speaks.check _).bind fun password hpassword => ?_
    have hknown : knownPassword crypto config = password := by
      rw [knownPassword, hpassword]
    rw [hknown, hpassword]
    exact (speaks_transmit secure (base64 password ++ lineEnd) 235).mono fun _ _ _ => rfl
  · rw [if_neg h, if_neg h]
    exact (Speaks.pure ()).mono fun _ _ hname => absurd hname h

theorem speaks_addressAll (secure : Bool) (recipients : List String) :
    Speaks (addressAll secure recipients)
      (recipients.map fun recipient => spoken (secure, .command (address recipient)))
      fun _ => True := by
  induction recipients with
  | nil =>
      exact (Speaks.pure ()).mono fun _ _ => trivial
  | cons recipient recipients ih =>
      exact (speaks_command secure (address recipient) 250).bind fun _ _ => ih

theorem intercalate_lines {lines : List Line} (h : lines ≠ []) :
    lineEnd.intercalate lines ++ lineEnd = lines.flatMap (· ++ lineEnd) := by
  induction lines with
  | nil => exact absurd rfl h
  | cons line lines ih =>
      cases lines with
      | nil => simp [List.intercalate]
      | cons next lines =>
          rw [List.intercalate_cons_cons, List.append_assoc, List.append_assoc, ih nofun]
          simp

/-- What is written as a message are its lines. -/
theorem messageText_eq (config : StoredMail) (subject : List Char) {body : List Line}
    (hbody : bodyLines html = .ok body) :
    messageText (headers config.smtpFrom config.smtpRecipients subject) body =
      (Item.message (mailLines config subject html)).text := by
  unfold bodyLines at hbody
  split at hbody
  · cases hbody
  next hhtml =>
    cases hbody
    have hgroups : Regrouping.allGroups 76 (base64 html) ≠ [] := by
      intro hnil
      have hflatten := Regrouping.flatten_allGroups (by decide : 0 < 76) (base64 html)
      rw [hnil] at hflatten
      exact hhtml hflatten.symm
    rw [messageText, Item.text, mailLines, List.flatMap_append, List.flatMap_cons,
      ← intercalate_lines (by simp [headers]), ← intercalate_lines hgroups]
    simp only [List.append_assoc, List.nil_append]

theorem speaks_transact (crypto : Secrets.CryptoService) (config : StoredMail) (secure : Bool)
    (subject html : List Char) :
    Speaks (config.transact crypto secure subject html)
      (((transaction config (knownPassword crypto config) subject html).map (secure, ·)).map spoken)
      fun _ => config.smtpUsername ≠ "" →
        decrypt crypto config.smtpPasswordEncrypted = .ok (knownPassword crypto config) := by
  have hparts : ((transaction config (knownPassword crypto config) subject html).map
      (secure, ·)).map spoken =
        ((authentication config (knownPassword crypto config)).map (secure, ·)).map spoken ++
          ([spoken (secure, .command ("MAIL FROM:<".toList ++ config.smtpFrom.toList ++ ['>']))] ++
            (config.smtpRecipients.map (fun recipient =>
              spoken (secure, .command (address recipient))) ++
                ([spoken (secure, .command "DATA".toList)] ++ ([] ++
                  ([spoken (secure, .message (mailLines config subject html))] ++
                    ([spoken (secure, .command "QUIT".toList)] ++ [])))))) := by
    simp [transaction, Function.comp_def]
  rw [hparts]
  refine (speaks_authenticate crypto config secure).bind fun _ hpassword => ?_
  refine (speaks_command secure _ 250).bind fun _ _ => ?_
  refine (speaks_addressAll secure config.smtpRecipients).bind fun _ _ => ?_
  refine (speaks_command secure _ 354).bind fun _ _ => ?_
  refine (Speaks.check (bodyLines html)).bind fun body hbody => ?_
  refine Speaks.bind (?_ : Speaks _ [_] fun _ => True) fun _ _ => ?_
  · rw [spoken, ← messageText_eq config subject hbody]
    exact speaks_transmit secure _ 250
  · refine (speaks_command secure _ 221).bind fun _ _ => ?_
    have hdestroy : Speaks (ExceptT.lift (Calls.perform Op.destroy) : Attempt Unit) [] fun _ =>
        True := Speaks.perform nofun fun _ => rfl
    exact hdestroy.mono fun _ _ => hpassword

theorem speaks_converse (crypto : Secrets.CryptoService) (config : StoredMail) (hostname : String)
    (subject html : List Char) :
    Speaks (config.converse crypto hostname subject html)
      ((conversation hostname config (knownPassword crypto config) subject html).map spoken)
      fun _ => config.smtpUsername ≠ "" →
        decrypt crypto config.smtpPasswordEncrypted = .ok (knownPassword crypto config) := by
  have hconnect : Speaks (ExceptT.lift (Calls.perform (Op.connect config.smtpSecure config.smtpHost
      config.smtpPort)) : Attempt Unit) [] fun _ => True := Speaks.perform nofun fun _ => rfl
  rw [conversation, List.cons_append, List.map_cons, List.map_append]
  change Speaks _ ([] ++ ([] ++ ([spoken (config.smtpSecure, .command (greeting hostname))] ++ _))) _
  refine hconnect.bind fun _ _ => ?_
  refine (speaks_awaitReply config.smtpSecure 220).bind fun _ _ => ?_
  refine (speaks_command config.smtpSecure (greeting hostname) 250).bind fun _ _ => ?_
  refine (speaks_secured config hostname).bind fun secure hsecure => ?_
  rw [hsecure]
  exact speaks_transact crypto config (encrypted config) subject html

end Program

/-! ## The parts are regular -/

theorem unbroken_base64 (text : List Char) : Unbroken (base64 text) ∧ '.' ∉ base64 text := by
  have hsigns : ∀ c ∈ base64 text, c ≠ '\r' ∧ c ≠ '\n' ∧ c ≠ '.' := by
    intro c hc
    rcases Base64.mem_encode hc with hmem | rfl
    · refine ⟨?_, ?_, ?_⟩ <;> (rintro rfl; exact absurd hmem (by decide))
    · decide
  exact ⟨fun c hc => ⟨(hsigns c hc).1, (hsigns c hc).2.1⟩, fun hdot => (hsigns '.' hdot).2.2 rfl⟩

/-- An address is one line. -/
theorem unbroken_of_isAddress {text : String} (h : isAddress text = true) :
    Unbroken text.toList := by
  unfold isAddress at h
  split at h
  next mailbox domain hsplit =>
    simp only [Bool.and_eq_true, List.all_eq_true] at h
    have htext : text.toList = mailbox ++ '@' :: domain := by
      have hjoin : ['@'].intercalate (text.toList.splitOn '@') = text.toList :=
        List.intercalate_splitOn '@'
      rw [← hjoin, hsplit]
      simp [List.intercalate]
    have hspace : ∀ c, JsString.isWhiteSpace c = false → c ≠ '\r' ∧ c ≠ '\n' := by
      intro c hc
      constructor <;> (rintro rfl; exact absurd hc (by decide))
    intro c hc
    rw [htext, List.mem_append, List.mem_cons] at hc
    rcases hc with hc | rfl | hc
    · exact hspace c (by simpa using h.1.2 c hc)
    · decide
    · exact hspace c (by simpa using h.2.1 c hc)
  next => cases h

theorem unbroken_trim {text : String} (h : Unbroken text.toList) :
    Unbroken (JsString.trim text).toList := fun c hc => by
  rw [JsString.toList_trim] at hc
  exact h c ((List.dropWhile_sublist _).subset ((List.rdropWhile_prefix _ _).subset hc))

/-- Settings whose addresses are lines. -/
def StoredMail.Valid (config : StoredMail) : Prop :=
  Unbroken config.smtpFrom.toList ∧ ∀ recipient ∈ config.smtpRecipients, Unbroken recipient.toList

theorem valid_of_save {crypto : Secrets.CryptoService} {previous : Option StoredMail}
    {iv : Vector UInt8 12} {input : MailInput} {row : StoredMail}
    (h : save crypto previous iv input = .ok row) : row.Valid := by
  unfold save at h
  split at h
  next port hport =>
    obtain ⟨haddresses, h⟩ := Checks.accepts_if.mp h
    obtain ⟨password, -, h⟩ := Checks.accepts_bind.mp h
    cases Checks.accepts_pure.mp h
    rw [not_or] at haddresses
    refine ⟨unbroken_trim ?_, fun recipient hrecipient => unbroken_of_isAddress ?_⟩
    · cases hfrom : input.smtpFrom with
      | none => exact fun c hc => absurd hc List.not_mem_nil
      | some sender =>
          by_cases hempty : sender = ""
          · subst hempty
            exact fun c hc => absurd hc List.not_mem_nil
          · exact unbroken_of_isAddress (by simpa [hfrom, hempty] using haddresses.2)
    · by_contra hnot
      exact haddresses.1 (List.any_eq_true.mpr ⟨recipient, hrecipient, by simpa using hnot⟩)
  next => cases h

theorem valid_of_saves (crypto : Secrets.CryptoService)
    (requests : List (Vector UInt8 12 × MailInput)) {config : StoredMail}
    (h : requests.foldl (afterSave crypto) none = some config) : config.Valid := by
  have hinvariant : ∀ stored : Option StoredMail, (∀ row ∈ stored, row.Valid) →
      ∀ row ∈ requests.foldl (afterSave crypto) stored, row.Valid := by
    clear h
    induction requests with
    | nil => exact fun stored hstored => hstored
    | cons request requests ih =>
        intro stored hstored
        apply ih
        intro row hrow
        unfold afterSave at hrow
        split at hrow
        next saved hsave =>
          cases hrow
          exact valid_of_save hsave
        next => exact hstored row hrow
  exact hinvariant none (by simp) config h

section Regularity

variable {hostname : String} {config : StoredMail} (hhost : Unbroken hostname.toList)
  (hvalid : config.Valid) (password subject html : List Char)

theorem unbroken_text {text : String} (h : text.toList.all (fun c => c ≠ '\r' && c ≠ '\n')) :
    Unbroken text.toList := fun c hc => by
  simpa using List.all_eq_true.mp h c hc

/-- A command with another first letter is followed by a command. -/
theorem following_other {c : Char} (hauth : c ≠ 'A') (hdata : c ≠ 'D') (line : Line) :
    following (c :: line) = .commands := by
  rw [following, if_neg (by rintro ⟨⟩; exact hauth rfl), if_neg (by rintro ⟨⟩; exact hdata rfl)]

include hhost in
theorem regular_greeting {items : List Item} (h : Regular .commands items) :
    Regular .commands (.command (greeting hostname) :: items) := by
  refine ⟨Unbroken.append (unbroken_text (by decide)) hhost, ?_⟩
  rw [greeting, show following ("EHLO ".toList ++ hostname.toList) = .commands from
    following_other (by decide) (by decide) _]
  exact h

theorem unbroken_intercalate {separator : Line} (hseparator : Unbroken separator)
    {lines : List Line} (h : ∀ line ∈ lines, Unbroken line) :
    Unbroken (separator.intercalate lines) := by
  induction lines with
  | nil => exact fun c hc => absurd hc List.not_mem_nil
  | cons line lines ih =>
      obtain ⟨hline, hlines⟩ := List.forall_mem_cons.mp h
      cases lines with
      | nil => simpa [List.intercalate] using hline
      | cons next lines =>
          rw [List.intercalate_cons_cons]
          exact (hline.append hseparator).append (ih hlines)

include hvalid in
theorem unbroken_headers : ∀ line ∈ headers config.smtpFrom config.smtpRecipients subject,
    Unbroken line ∧ line ≠ [] ∧ line.head? ≠ some '.' := by
  have hrecipients : ∀ line ∈ config.smtpRecipients.map String.toList, Unbroken line := by
    intro line hline
    obtain ⟨recipient, hrecipient, rfl⟩ := List.mem_map.mp hline
    exact hvalid.2 recipient hrecipient
  simp only [headers, List.forall_mem_cons]
  refine ⟨⟨(unbroken_text (by decide)).append hvalid.1, nofun, nofun⟩,
    ⟨(unbroken_text (by decide)).append (unbroken_intercalate (unbroken_text (by decide))
      hrecipients), nofun, nofun⟩,
    ⟨((unbroken_text (by decide)).append (unbroken_base64 subject).1).append
      (unbroken_text (by decide)), nofun, nofun⟩,
    ⟨unbroken_text (by decide), nofun, nofun⟩, ⟨unbroken_text (by decide), nofun, nofun⟩,
    ⟨unbroken_text (by decide), nofun, nofun⟩, fun _ h => absurd h List.not_mem_nil⟩

/-- Every line of a message is a line, and none starts with a dot. -/
theorem unbroken_mailLines (hvalid : config.Valid) (subject html : List Char) :
    ∀ line ∈ mailLines config subject html, Unbroken line ∧ line.head? ≠ some '.' := by
  intro line hline
  rcases List.mem_append.mp hline with hheader | hbody
  · obtain ⟨hunbroken, -, hdot⟩ := unbroken_headers hvalid subject line hheader
    exact ⟨hunbroken, hdot⟩
  · rcases List.mem_cons.mp hbody with rfl | hgroup
    · exact ⟨fun c hc => absurd hc List.not_mem_nil, nofun⟩
    · have hsubset := ((Regrouping.allGroups_pad (by decide : 0 < 76) (base64 html) 'A').1 line
        hgroup).2.2
      obtain ⟨hunbroken, hdot⟩ := unbroken_base64 html
      refine ⟨fun c hc => hunbroken c (hsubset hc), fun hhead => hdot (hsubset ?_)⟩
      exact List.mem_of_mem_head? hhead

theorem subjectOf_other {c : Char} (hc : c ≠ 'S') (line : Line) : subjectOf (c :: line) = none := by
  refine if_neg ?_
  rintro ⟨⟨more, hmore⟩, -⟩
  cases hmore
  exact hc rfl

theorem subjectOf_subject (subject : List Char) :
    subjectOf ("Subject: =?UTF-8?B?".toList ++ base64 subject ++ "?=".toList) =
      some (Utf8.encode subject) := by
  have hdrop : ("Subject: =?UTF-8?B?".toList ++ base64 subject ++ "?=".toList).drop 19 =
      base64 subject ++ "?=".toList := by
    rw [List.append_assoc]
    exact List.drop_left' rfl
  have hlength : ("Subject: =?UTF-8?B?".toList ++ base64 subject ++ "?=".toList).length - 21 =
      (base64 subject).length := by
    rw [List.length_append, List.length_append]
    change 19 + (base64 subject).length + 2 - 21 = _
    omega
  rw [subjectOf, if_pos ⟨⟨base64 subject ++ "?=".toList, (List.append_assoc _ _ _).symm⟩,
    ⟨_, rfl⟩⟩, hdrop, hlength, List.take_left, base64, Base64.decode_encode]

include hvalid in
/-- A message is read as it was written. -/
theorem readMail_mailLines :
    readMail (mailLines config subject html) = some (Utf8.encode subject, Utf8.encode html) := by
  have hsubject : (mailLines config subject html).findSome? subjectOf =
      some (Utf8.encode subject) := by
    have hsender : subjectOf ("From: ".toList ++ config.smtpFrom.toList) = none :=
      subjectOf_other (by decide) _
    have hrecipients : subjectOf ("To: ".toList ++
        ", ".toList.intercalate (config.smtpRecipients.map String.toList)) = none :=
      subjectOf_other (by decide) _
    simp only [mailLines, headers, List.cons_append, List.findSome?_cons, hsender, hrecipients,
      subjectOf_subject]
  have hbody : (mailLines config subject html).dropWhile (· ≠ []) =
      [] :: Regrouping.allGroups 76 (base64 html) := by
    rw [mailLines, List.dropWhile_append_of_pos]
    · rfl
    · intro line hline
      simpa using (unbroken_headers hvalid subject line hline).2.1
  rw [readMail, hsubject, hbody, List.flatten_cons, List.nil_append,
    Regrouping.flatten_allGroups (by decide), base64, Base64.decode_encode]
  rfl

include hvalid in
theorem regular_recipients {items : List Item} (h : Regular .commands items)
    {recipients : List String} (hrecipients : recipients ⊆ config.smtpRecipients) :
    Regular .commands (recipients.map (fun recipient => .command (address recipient)) ++ items) := by
  induction recipients with
  | nil => exact h
  | cons recipient recipients ih =>
      obtain ⟨hrecipient, hothers⟩ := List.cons_subset.mp hrecipients
      refine ⟨((unbroken_text (by decide)).append (hvalid.2 recipient hrecipient)).append
        (unbroken_text (show (">" : String).toList.all _ = true by decide)), ?_⟩
      have hnext : following (address recipient) = .commands :=
        following_other (by decide) (by decide) _
      rw [hnext]
      exact ih hothers

include hvalid in
theorem regular_transaction : Regular .commands (transaction config password subject html) := by
  have hmail : Regular .commands (.command ("MAIL FROM:<".toList ++ config.smtpFrom.toList ++
      ['>']) :: (config.smtpRecipients.map (fun recipient => .command (address recipient)) ++
        [.command "DATA".toList, .message (mailLines config subject html),
          .command "QUIT".toList])) := by
    refine ⟨((unbroken_text (by decide)).append hvalid.1).append
      (unbroken_text (show (">" : String).toList.all _ = true by decide)), ?_⟩
    have hnext : following ("MAIL FROM:<".toList ++ config.smtpFrom.toList ++ ['>']) = .commands :=
      following_other (by decide) (by decide) _
    rw [hnext]
    refine regular_recipients hvalid ?_ (List.Subset.refl _)
    exact ⟨unbroken_text (by decide), unbroken_mailLines hvalid subject html,
      unbroken_text (by decide), trivial⟩
  unfold transaction authentication
  split
  · exact ⟨unbroken_text (by decide), (unbroken_base64 _).1, (unbroken_base64 _).1, hmail⟩
  · exact hmail

end Regularity

/-! ## What the server hears -/

theorem filter_channel (channel secure : Bool) (items : List Item) :
    ((items.map (channel, ·)).filter (·.1 = secure)).map Prod.snd =
      if channel = secure then items else [] := by
  by_cases h : channel = secure
  · rw [if_pos h, List.filter_eq_self.mpr, List.map_map]
    · exact List.map_id items
    · intro part hpart
      obtain ⟨item, -, rfl⟩ := List.mem_map.mp hpart
      simpa using h
  · rw [if_neg h, List.filter_eq_nil_iff.mpr, List.map_nil]
    intro part hpart
    obtain ⟨item, -, rfl⟩ := List.mem_map.mp hpart
    simpa using h

theorem meant_eq (hostname : String) (config : StoredMail) (password subject html : List Char)
    (secure : Bool) :
    meant hostname config password subject html secure =
      (if config.smtpSecure = secure then [.command (greeting hostname)] else []) ++
        (if config.smtpStartTls && !config.smtpSecure then
          [if secure then .command (greeting hostname) else .command "STARTTLS".toList]
        else []) ++
          if encrypted config = secure then transaction config password subject html else [] := by
  rw [meant, conversation, List.cons_append, ← List.singleton_append, ← List.append_assoc,
    List.filter_append, List.map_append, filter_channel]
  congr 1
  cases config.smtpSecure <;> cases config.smtpStartTls <;> cases secure <;> rfl

theorem regular_meant {hostname : String} {config : StoredMail} (hhost : Unbroken hostname.toList)
    (hvalid : config.Valid) (password subject html : List Char) (secure : Bool) :
    Regular .commands (meant hostname config password subject html secure) := by
  have htransaction := regular_transaction hvalid password subject html
  have hgreeting : Regular .commands [.command (greeting hostname)] := regular_greeting hhost trivial
  have hstart : Unbroken "STARTTLS".toList := unbroken_text (by decide)
  rw [meant_eq, encrypted]
  cases config.smtpSecure <;> cases config.smtpStartTls <;> cases secure
  · exact regular_greeting hhost htransaction
  · trivial
  · exact regular_greeting hhost ⟨hstart, trivial⟩
  · exact regular_greeting hhost htransaction
  · trivial
  · exact regular_greeting hhost htransaction
  · trivial
  · exact regular_greeting hhost htransaction

/-- The lines of a part. -/
def Item.lines : Item → List Line
  | command line | credential line => [line]
  | message lines => lines ++ [['.']]

theorem Item.text_eq (item : Item) : item.text = item.lines.flatMap (· ++ lineEnd) := by
  cases item with
  | command line | credential line => simp [Item.text, Item.lines]
  | message lines => simp [Item.text, Item.lines]

theorem Regular.unbroken {mode : Mode} {items : List Item} (h : Regular mode items) :
    ∀ line ∈ items.flatMap Item.lines, Unbroken line := by
  induction items generalizing mode with
  | nil => exact fun line hline => absurd hline List.not_mem_nil
  | cons item items ih =>
      have hrest : (∀ line ∈ item.lines, Unbroken line) ∧ ∃ next, Regular next items := by
        cases mode with
        | commands =>
            cases item with
            | command line => exact ⟨by simpa [Item.lines] using h.1, _, h.2⟩
            | credential line => exact h.elim
            | message lines => exact h.elim
        | credentials left =>
            cases item with
            | command line => exact h.elim
            | credential line => exact ⟨by simpa [Item.lines] using h.1, _, h.2⟩
            | message lines => exact h.elim
        | data got =>
            cases got with
            | cons line got => cases item <;> exact h.elim
            | nil =>
                cases item with
                | command line => exact h.elim
                | credential line => exact h.elim
                | message lines =>
                    refine ⟨fun line hline => ?_, _, h.2⟩
                    rcases List.mem_append.mp hline with hline | hline
                    · exact (h.1 line hline).1
                    · rw [List.mem_singleton.mp hline]
                      simp [Unbroken]
      obtain ⟨hlines, next, hnext⟩ := hrest
      intro line hline
      rw [List.flatMap_cons] at hline
      exact (List.mem_append.mp hline).elim (hlines line) (ih hnext line)

/-- What has been written is the beginning of the conversation, part by part. -/
theorem sent_of_begins {trace : Trace} {parts : List (Bool × Item)}
    (h : written trace <+: parts.map spoken) (secure : Bool) :
    ∃ items, items <+: (parts.filter (·.1 = secure)).map Prod.snd ∧
      sent secure trace = items.flatMap Item.text ∧
      (written trace = parts.map spoken → items = (parts.filter (·.1 = secure)).map Prod.snd) := by
  obtain ⟨first, hfirst, hwritten⟩ := List.prefix_map_iff.mp h
  refine ⟨(first.filter (·.1 = secure)).map Prod.snd, (hfirst.filter _).map _, ?_, ?_⟩
  · rw [sent, hwritten, List.filter_map, List.flatMap_map, List.flatMap_map]
    rfl
  · intro hall
    rw [hfirst.eq_of_length (by simpa [hwritten] using congrArg List.length hall)]

/-- What comes of a notification whose settings are complete. -/
structure Heard (crypto : Secrets.CryptoService) (config : StoredMail) (hostname : String)
    (subject html : List Char) (trace : Trace) (result : Except MailFailure Unit) : Prop where
  begins : ∀ secure, heard secure trace <+:
    meant hostname config (knownPassword crypto config) subject html secure
  ends : result = .ok () →
    (∀ secure, heard secure trace =
      meant hostname config (knownPassword crypto config) subject html secure) ∧
    (config.smtpUsername ≠ "" →
      decrypt crypto config.smtpPasswordEncrypted = .ok (knownPassword crypto config))
  turns : Turns trace
  lines : ∀ secure, ∃ lines : List Line, sent secure trace = lines.flatMap (· ++ lineEnd) ∧
    ∀ line ∈ lines, Unbroken line
  mails : ∀ secure lines, .message lines ∈ heard secure trace →
    readMail lines = some (Utf8.encode subject, Utf8.encode html)
  encrypted : encrypted config = true → ∀ item ∈ heard false trace,
    item = .command (greeting hostname) ∨ item = .command "STARTTLS".toList

section Conclusion

variable {crypto : Secrets.CryptoService} {hostname : String} {config : StoredMail}
  {password subject html : List Char}

theorem mem_meant_message {secure : Bool} {lines : List Line}
    (h : .message lines ∈ meant hostname config password subject html secure) :
    lines = mailLines config subject html := by
  rw [meant_eq] at h
  rcases List.mem_append.mp h with h | h
  · rcases List.mem_append.mp h with h | h
    · split at h <;> simp at h
    · split at h
      · cases secure <;> simp at h
      · cases h
  · split at h
    · simp only [transaction, authentication, List.mem_append, List.mem_cons, List.mem_map] at h
      rcases h with (h | h | h) | h | h | h | h
      · split at h <;> simp at h
      · cases h
      · obtain ⟨recipient, -, heq⟩ := h
        cases heq
      · cases h
      · exact Item.message.inj h
      · cases h
      · cases h
    · cases h

theorem mem_meant_plain (hencrypted : encrypted config = true) {item : Item}
    (h : item ∈ meant hostname config password subject html false) :
    item = .command (greeting hostname) ∨ item = .command "STARTTLS".toList := by
  rw [meant_eq, hencrypted, if_neg (by decide : ¬true = false),
    List.append_nil] at h
  rcases List.mem_append.mp h with h | h
  · split at h
    · exact .inl (List.mem_singleton.mp h)
    · cases h
  · split at h
    · exact .inr (List.mem_singleton.mp h)
    · cases h

theorem password_mem_meant (huser : config.smtpUsername ≠ "") :
    .credential (base64 password) ∈
      meant hostname config password subject html (encrypted config) := by
  have hsecret : Item.credential (base64 password) ∈ authentication config password := by
    rw [authentication, if_pos huser]
    exact .tail _ (.tail _ (.head _))
  rw [meant_eq, if_pos rfl, transaction]
  exact List.mem_append_right _ (List.mem_append_left _ (List.mem_append_left _ hsecret))

theorem heard_of_runs {trace : Trace} {result : Except MailFailure Unit}
    (hhost : Unbroken hostname.toList) (hvalid : config.Valid)
    (h : Calls.Runs (config.converse crypto hostname subject html).run trace result) :
    Heard crypto config hostname subject html trace result := by
  have hspeaks := speaks_converse crypto config hostname subject html
  obtain ⟨hwritten, hturns⟩ := hspeaks.begins trace result h
  have hregular := regular_meant hhost hvalid (knownPassword crypto config) subject html
  have hitems : ∀ secure, ∃ items, items <+:
      meant hostname config (knownPassword crypto config) subject html secure ∧
        sent secure trace = items.flatMap Item.text ∧ heard secure trace = items := by
    intro secure
    obtain ⟨items, hbegins, hsent, -⟩ := sent_of_begins hwritten secure
    refine ⟨items, hbegins, hsent, ?_⟩
    rw [heard, hsent, listen_text ((hregular secure).of_begins hbegins)]
  have hbegins : ∀ secure, heard secure trace <+:
      meant hostname config (knownPassword crypto config) subject html secure := by
    intro secure
    obtain ⟨items, hbegins, -, hheard⟩ := hitems secure
    rw [hheard]
    exact hbegins
  refine ⟨hbegins, ?_, hturns, ?_, ?_, ?_⟩
  · rintro rfl
    obtain ⟨hall, hpassword, -⟩ := hspeaks.ends trace () h
    refine ⟨fun secure => ?_, hpassword⟩
    obtain ⟨items, hbegins, hsent, hmeant⟩ := sent_of_begins hwritten secure
    rw [heard, hsent, listen_text ((hregular secure).of_begins hbegins)]
    exact hmeant hall
  · intro secure
    obtain ⟨items, hbegins, hsent, -⟩ := hitems secure
    refine ⟨items.flatMap Item.lines, ?_, ((hregular secure).of_begins hbegins).unbroken⟩
    rw [hsent, List.flatMap_assoc]
    exact List.flatMap_congr fun item _ => item.text_eq
  · intro secure lines hmem
    rw [mem_meant_message ((hbegins secure).subset hmem), readMail_mailLines hvalid]
  · exact fun hencrypted item hmem => mem_meant_plain hencrypted ((hbegins false).subset hmem)

end Conclusion

/-- After any saved settings and whatever the server answers, the server reads the beginning of the
conversation that is meant, and all of it where no error ends it: nothing in a notification or in
the settings adds or splits a line, a message is read as it was written, and on a connection that is
to be encrypted first there is nothing but the greeting and the request to do so. Each write is
answered before the next one, and a refusal is the last thing read. -/
theorem server_hears_what_is_meant (crypto : Secrets.CryptoService)
    (requests : List (Vector UInt8 12 × MailInput)) (hostname : String)
    (hhost : Unbroken hostname.toList) (subject html : List Char) (trace : Trace)
    (result : Except MailFailure Unit)
    (h : Calls.Runs (email crypto hostname (requests.foldl (afterSave crypto) none) subject
      html).run trace result) :
    (trace = [] ∧ result ≠ .ok ()) ∨
      ∃ config, requests.foldl (afterSave crypto) none = some config ∧
        Heard crypto config hostname subject html trace result := by
  rcases Calls.runs_attempt_bind_iff.mp h with ⟨error, hcomplete, rfl⟩ | ⟨none, rest, config, rfl,
    hcomplete, hconverse⟩
  · exact .inl ⟨(Calls.runs_check_iff.mp hcomplete).1, nofun⟩
  · obtain ⟨rfl, hconfig⟩ := Calls.runs_check_iff.mp hcomplete
    have hstored : requests.foldl (afterSave crypto) none = some config := by
      revert hconfig
      cases requests.foldl (afterSave crypto) Option.none with
      | none => exact nofun
      | some saved =>
          rw [complete]
          split
          · exact nofun
          · intro hconfig
            cases hconfig
            rfl
    exact .inr ⟨config, hstored, heard_of_runs hhost (valid_of_saves crypto requests hstored)
      hconverse⟩

/-- An account with a password, and two recipients, over a connection that is encrypted after the
greeting. -/
def exampleInput : MailInput where
  smtpHost := some "smtp.example.com"
  smtpPort := none
  smtpSecure := some false
  smtpStartTls := some true
  smtpUsername := some "isms"
  smtpPassword := some "hush"
  smtpFrom := some "isms@example.com"
  smtpRecipients := some "first@example.com; second@example.com"

def exampleRequests : List (Vector UInt8 12 × MailInput) := [(Vector.replicate 12 1, exampleInput)]

def exampleConfig : StoredMail where
  smtpHost := "smtp.example.com"
  smtpPort := 587
  smtpSecure := false
  smtpStartTls := true
  smtpUsername := "isms"
  smtpPasswordEncrypted := some (Secrets.CryptoService.secretText (List.replicate 12 1)
    (List.replicate 16 0) (Utf8.encode "hush".toList))
  smtpFrom := "isms@example.com"
  smtpRecipients := ["first@example.com", "second@example.com"]

/-- A server that accepts everything. -/
def acceptingServer : (op : Op) → op.Answer
  | .read _ _ => .ok ()
  | .connect .. | .upgrade _ | .write .. | .destroy => ()

set_option maxRecDepth 20000 in
theorem exampleConfig_saved :
    exampleRequests.foldl (afterSave Secrets.zeroKeyService) none = some exampleConfig := by
  rfl

set_option maxRecDepth 20000 in
theorem exampleConfig_password :
    knownPassword Secrets.zeroKeyService exampleConfig = "hush".toList := by
  rfl

set_option maxRecDepth 20000 in
theorem server_hears_what_is_meant_encrypted : ∃ trace,
    Heard Secrets.zeroKeyService exampleConfig "portal" "Réunion".toList "<p>.</p>".toList trace
        (.ok ()) ∧
      Item.credential (base64 "hush".toList) ∈ heard true trace ∧
      Item.credential (base64 "hush".toList) ∉ heard false trace := by
  obtain ⟨trace, htrace, hrun⟩ := Calls.runs_runIn (fun _ => acceptingServer)
    (email Secrets.zeroKeyService "portal" (exampleRequests.foldl (afterSave Secrets.zeroKeyService)
      none) "Réunion".toList "<p>.</p>".toList).run []
  have hresult : (Calls.runIn (fun _ => acceptingServer) []
      (email Secrets.zeroKeyService "portal" (exampleRequests.foldl
        (afterSave Secrets.zeroKeyService) none) "Réunion".toList "<p>.</p>".toList).run).2 =
          .ok () := by
    rfl
  rw [hresult] at hrun
  rcases server_hears_what_is_meant Secrets.zeroKeyService exampleRequests "portal"
    (unbroken_text (by decide)) _ _ trace (.ok ()) hrun with ⟨-, herror⟩ | ⟨config, hstored, hheard⟩
  · exact absurd rfl herror
  · obtain rfl := Option.some.inj (exampleConfig_saved.symm.trans hstored)
    refine ⟨trace, hheard, ?_, fun hplain => ?_⟩
    · rw [(hheard.ends rfl).1 true, exampleConfig_password]
      exact password_mem_meant (by decide)
    · rcases hheard.encrypted rfl _ hplain with h | h
      · cases h
      · cases h

end Notifications.Mail
