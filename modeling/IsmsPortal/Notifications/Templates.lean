import IsmsPortal.Foundation.JsString
import IsmsPortal.Foundation.Markup

/-! # Templates of notifications

A notification is written as a page: a frame with its subject, and in it the text, the link to the
portal and what the template adds. A browser reads the page as the template with the notification as
text in its places: nothing in the notification makes a tag, the only links are the one given, and
the text comes out as it was.
-/

namespace Notifications.Templates

open Foundation Markup

inductive EmailTemplate
  | document
  | approval
  | report
  | access
  | governance
  | sensitive
  | service
deriving DecidableEq, Repr

structure TemplateCopy where
  header : String
  action : String
  footer : String
  color : String

def templateCopy : EmailTemplate → TemplateCopy
  | .document =>
      { header := "Document control"
        action := "Open document"
        footer := "This document notification was sent by ISMS Portal. Access permissions still " ++
          "apply."
        color := "#0866d9" }
  | .approval =>
      { header := "Action required"
        action := "Open approvals"
        footer := "Open ISMS Portal to review the request and record an authenticated decision. " ++
          "Do not reply to this automated message."
        color := "#7a5100" }
  | .report =>
      { header := "Report notification"
        action := "Open report"
        footer := "Use ISMS Portal to review or manage this report. Do not reply to this " ++
          "automated message."
        color := "#b42318" }
  | .access =>
      { header := "Access management"
        action := "Review access request"
        footer := "Use ISMS Portal to review this access request. Do not reply to this " ++
          "automated message."
        color := "#5b3ea8" }
  | .governance =>
      { header := "ISMS governance"
        action := "Open ISMS Portal"
        footer := "Use ISMS Portal to review the assigned action. Do not reply to this " ++
          "automated message."
        color := "#005f73" }
  | .sensitive =>
      { header := "Sensitive document"
        action := "Open sensitive document"
        footer := "This sensitive document is confidential. Sign in to ISMS Portal to read it; " ++
          "access is personal, logged and watermarked. Do not forward this message or the " ++
          "content. Do not reply to this automated message."
        color := "#a11a1a" }
  | .service =>
      { header := "ISMS service alert"
        action := "Open ISMS Portal"
        footer := "This is an automated ISMS Portal service notification."
        color := "#b54708" }

/-! ## Texts -/

/-- `text.replace(/\r\n?/gu, "\n")`. -/
def normaliseBreaks : List Char → List Char
  | '\r' :: '\n' :: rest => '\n' :: normaliseBreaks rest
  | '\r' :: rest => '\n' :: normaliseBreaks rest
  | c :: rest => c :: normaliseBreaks rest
  | [] => []

/-- `text.split("\n\n")`. -/
def splitBlank : List Char → List (List Char)
  | '\n' :: '\n' :: rest => [] :: splitBlank rest
  | c :: rest => (splitBlank rest).modifyHead (c :: ·)
  | [] => [[]]

def separator : List Char := "\n---\n".toList

/-- What is before the last separator and what is behind it. -/
def splitLast : List Char → Option (List Char × List Char)
  | [] => none
  | c :: rest =>
      match splitLast rest with
      | some (body, metadata) => some (c :: body, metadata)
      | none => if separator <+: c :: rest then some ([], (c :: rest).drop 5) else none

def portalTag : List Char := "[ISMS Portal]".toList

/-- `subject.replace(/^\[ISMS Portal\]\s*/u, "")`. -/
def bareSubject (subject : List Char) : List Char :=
  if portalTag <+: subject then (subject.drop 13).dropWhile JsString.isWhiteSpace else subject

/-- The case of a character where case is ignored, as far as it is a letter of the words below. -/
def foldCase (c : Char) : Char := if c.toNat = 0x17F then 's' else c.toLower

/-- A character of a word, where case is ignored. -/
def isWordChar (c : Char) : Bool := c.isAlphanum || c = '_' || c.toNat ∈ [0x17F, 0x212A]

/-- One of the words starts here and ends as a word. -/
def decisionHere (text : List Char) : Bool :=
  ["approved", "rejected", "decision"].any fun word =>
    word.toList <+: text.map foldCase && !(text.drop word.length).head?.any isWordChar

/-- `/\b(approved|rejected|decision)\b/iu.test(text)`, behind a character or at the start. -/
def isDecision : Option Char → List Char → Bool
  | _, [] => false
  | previous, c :: rest =>
      (!previous.any isWordChar && decisionHere (c :: rest)) || isDecision (some c) rest

/-! ## Parts of a page -/

def lineBreaks (text : List Char) : List Char :=
  (escape text).flatMap fun c => if c = '\n' then "<br>".toList else [c]

def openTag (content : List Char) : List Char := '<' :: content ++ ['>']

def paragraphTag : List Char := "p style=\"margin:0 0 14px\"".toList

def paragraphs (text : List Char) : List Char :=
  (splitBlank text).flatMap fun paragraph =>
    openTag paragraphTag ++ lineBreaks paragraph ++ "</p>".toList

def pageOpen : String :=
  "<!doctype html>\n<html lang=\"en\"><head><meta charset=\"utf-8\">" ++
    "<meta name=\"viewport\" content=\"width=device-width,initial-scale=1\">"

def titleTag : List Char := "title".toList

def pageBody : String :=
  "</title></head>\n<body style=\"margin:0;padding:0;background:#f3f6fa;" ++
    "font-family:Arial,Helvetica,sans-serif;color:#172b4d\">\n"

def pageTable : String :=
  "<table role=\"presentation\" width=\"100%\" cellpadding=\"0\" cellspacing=\"0\"><tr>" ++
    "<td align=\"center\" style=\"padding:24px 12px\">\n" ++
    "<!--[if mso]><table role=\"presentation\" width=\"600\"><tr><td><![endif]-->\n"

def pageBox : String :=
  "<table role=\"presentation\" width=\"100%\" cellpadding=\"0\" cellspacing=\"0\" " ++
    "style=\"max-width:600px;font-family:Arial,Helvetica,sans-serif;background:#fff;" ++
    "border:1px solid #d9e2ef;border-radius:8px;table-layout:fixed\">\n<tr>"

/-- The cell of the heading, with its color. -/
def headingTag (color : List Char) : List Char :=
  "td style=\"padding:20px 24px;border-bottom:4px solid ".toList ++ color ++
    ";font-size:13px;font-weight:bold;letter-spacing:0;word-break:break-word\"".toList

def pageCell : String :=
  "</td></tr>\n<tr><td style=\"padding:24px;word-wrap:break-word;overflow-wrap:anywhere\">"

def subjectTag : List Char := "h1 style=\"font-size:24px;line-height:1.3;margin:0 0 18px\"".toList

def pageContent : String := "</h1>"

def pageFooter : String := "</td></tr>\n<tr>"

def footerTag : List Char :=
  "td style=\"padding:18px 24px;background:#edf3fa;".toList ++
    "font-size:12px;line-height:1.6;color:#52677f\"".toList

def pageClose : String :=
  "</td></tr>\n</table><!--[if mso]></td></tr></table><![endif]-->\n" ++
    "</td></tr></table></body></html>"

def emailFrame (subject heading color contentHtml footerHtml : List Char) : List Char :=
  [pageOpen.toList, openTag titleTag, escape subject, pageBody.toList, pageTable.toList,
    pageBox.toList, openTag (headingTag color), escape heading, pageCell.toList,
    openTag subjectTag, escape (bareSubject subject), pageContent.toList, contentHtml,
    pageFooter.toList, openTag footerTag, footerHtml, pageClose.toList].flatten

/-- A link with its style. -/
def linkTag (href style : List Char) : List Char :=
  "a href=\"".toList ++ escape href ++ '"' :: (" style=\"".toList ++ style ++ ['"'])

/-- The cell of a button. -/
def buttonTag (color : List Char) : List Char :=
  "td bgcolor=\"".toList ++ color ++ "\" style=\"border-radius:6px\"".toList

def approvalOpen : String :=
  "<p style=\"font-size:14px;line-height:1.6;margin:0 0 20px;color:#52677f\">"

def approvalBody : String := "</p>\n<div style=\"font-size:15px;line-height:1.65\">"

def approvalButton : String :=
  "</div>\n<table role=\"presentation\" cellpadding=\"0\" cellspacing=\"0\" " ++
    "style=\"margin-top:22px\"><tr>"

def approvalFooter : String :=
  "</a></td></tr></table>\n<p style=\"font-size:12px;color:#52677f;margin:20px 0 0\">"

def approvalButtonStyle : List Char :=
  "display:inline-block;padding:13px 18px;color:#fff;".toList ++
    "font-size:15px;font-weight:bold;text-decoration:none".toList

def approvalDescription (decision : Bool) : String :=
  if decision then "A decision has been recorded. Open ISMS Portal for the full history."
  else "Your action is required. Open ISMS Portal to review the request and record an " ++
    "authenticated decision."

def approvalAction (decision : Bool) : String :=
  if decision then "Open decision" else "Review request"

def approvalHeading (decision : Bool) : List Char :=
  "[ISMS Portal] | ".toList ++
    (if decision then "DECISION RECORDED" else "ACTION REQUIRED").toList

/-- The content of a request or a decision, with the text above the last separator. -/
def approvalContent (copy : TemplateCopy) (decision : Bool) (href body : List Char) : List Char :=
  [approvalOpen.toList, escape (approvalDescription decision).toList, approvalBody.toList,
    paragraphs body, approvalButton.toList, openTag (buttonTag copy.color.toList),
    openTag (linkTag href approvalButtonStyle), (approvalAction decision).toList,
    approvalFooter.toList, escape copy.footer.toList, "</p>".toList].flatten

def documentNote : String :=
  "<p style=\"font-size:14px;line-height:1.6;margin:0 0 14px;color:#52677f\">" ++
    "Automated notification from ISMS Portal. You are receiving this message because your " ++
    "organisation account has access to this document.</p>\n"

def documentOpen : String :=
  "<p style=\"font-size:15px;line-height:1.7;margin:0 0 22px\">Click "

def documentBody : String :=
  "here to open the document</a>.</p>\n<div style=\"font-size:15px;line-height:1.7\">"

def documentLinkStyle (copy : TemplateCopy) : List Char :=
  "color:".toList ++ copy.color.toList ++ ";font-weight:bold".toList

def documentContent (copy : TemplateCopy) (href body : List Char) : List Char :=
  [documentNote.toList, documentOpen.toList, openTag (linkTag href (documentLinkStyle copy)),
    documentBody.toList, paragraphs body, "</div>".toList].flatten

def plainOpen : String := "<div style=\"font-size:15px;line-height:1.7\">"

def plainButton : String :=
  "</div>\n<table role=\"presentation\" cellpadding=\"0\" cellspacing=\"0\" " ++
    "style=\"margin-top:24px\"><tr>"

def plainFooter : String :=
  "</a></td></tr></table>\n<p style=\"font-size:12px;color:#52677f;margin-top:22px\">"

def plainLink : String := "</p>\n<p style=\"font-size:12px;word-break:break-all\">"

def plainButtonStyle : List Char :=
  "display:inline-block;padding:14px 20px;color:#fff;".toList ++
    "font-size:15px;font-weight:bold;text-decoration:none".toList

def bareLinkTag (href : List Char) : List Char := "a href=\"".toList ++ escape href ++ ['"']

def plainContent (copy : TemplateCopy) (href text : List Char) : List Char :=
  [plainOpen.toList, paragraphs text, plainButton.toList, openTag (buttonTag copy.color.toList),
    openTag (linkTag href plainButtonStyle), escape copy.action.toList, plainFooter.toList,
    escape copy.footer.toList, plainLink.toList, openTag (bareLinkTag href), escape href,
    "</a></p>".toList].flatten

def plainHeading (copy : TemplateCopy) : List Char :=
  "ISMS PORTAL | ".toList ++ copy.header.toUpper.toList

def plainNote : String := "Automated notification from ISMS Portal."

/-! ## The page -/

structure Url where
  protocol : String
  origin : String
  href : List Char

section Page

variable (parseUrl : String → Option Url) (publicUrl : Option String)

/-- The origin of `portalLink()`. -/
def portalOrigin : Except String String := do
  let some address := publicUrl.filter (· ≠ "")
    | throw "PUBLIC_URL is required for notification links"
  let some url := parseUrl address | throw "Invalid URL"
  unless url.protocol = "https:" do throw "PUBLIC_URL must use HTTPS"
  return url.origin

/-- What is above the last separator and what is below it, where the template tells them apart. -/
def structured (template : EmailTemplate) (subject text : List Char) :
    Option (List Char × List Char) :=
  if "[ISMS Portal] ".toList <+: subject ∧ template ∈ [.approval, .document] then splitLast text
  else none

/-- The page of a text whose line ends are normalised. -/
def page (template : EmailTemplate) (subject text href : List Char) : List Char :=
  let copy := templateCopy template
  match structured template subject text with
  | some (body, metadata) =>
      if template = .approval then
        let decision := isDecision none subject
        emailFrame subject (approvalHeading decision) copy.color.toList
          (approvalContent copy decision href body) (lineBreaks metadata)
      else
        emailFrame subject subject copy.color.toList (documentContent copy href body)
          (lineBreaks metadata)
  | none =>
      emailFrame subject (plainHeading copy) copy.color.toList (plainContent copy href text)
        plainNote.toList

def notificationHtml (subject text : List Char) (link : String) (template : EmailTemplate) :
    Except String (List Char) := do
  let some url := parseUrl link | throw "Invalid URL"
  unless url.protocol = "https:" do throw "Invalid notification link"
  let origin ← portalOrigin parseUrl publicUrl
  unless url.origin = origin do throw "Invalid notification link"
  return page template subject (normaliseBreaks text) url.href

/-- What a page is made from. -/
theorem notificationHtml_ok {parseUrl : String → Option Url} {publicUrl : Option String}
    {subject text html : List Char} {link : String} {template : EmailTemplate}
    (h : notificationHtml parseUrl publicUrl subject text link template = .ok html) :
    ∃ url, parseUrl link = some url ∧ url.protocol = "https:" ∧
      portalOrigin parseUrl publicUrl = .ok url.origin ∧
      html = page template subject (normaliseBreaks text) url.href := by
  unfold notificationHtml at h
  cases hurl : parseUrl link with
  | none => rw [hurl] at h; nomatch h
  | some url =>
      rw [hurl] at h
      simp only at h
      by_cases hprotocol : url.protocol = "https:"
      · rw [if_pos hprotocol] at h
        cases horigin : portalOrigin parseUrl publicUrl with
        | error message => rw [horigin] at h; nomatch h
        | ok origin =>
            rw [horigin] at h
            by_cases hsame : url.origin = origin
            · refine ⟨url, rfl, hprotocol, hsame ▸ rfl, ?_⟩
              change (if url.origin = origin then _ else _) = _ at h
              rw [if_pos hsame] at h
              exact (Except.ok.inj h).symm
            · change (if url.origin = origin then _ else _) = _ at h
              rw [if_neg hsame] at h
              nomatch h
      · rw [if_neg hprotocol] at h
        nomatch h

end Page

/-! ## Texts put together again -/

theorem splitBlank_ne_nil (text : List Char) : splitBlank text ≠ [] := by
  fun_induction splitBlank text with
  | case1 rest ih => exact List.cons_ne_nil _ _
  | case2 c rest _ ih =>
      obtain ⟨head, tail, h⟩ := List.exists_cons_of_ne_nil ih
      rw [h]
      exact List.cons_ne_nil _ _
  | case3 => exact List.cons_ne_nil _ _

/-- The paragraphs with their blank lines are the text. -/
theorem intercalate_splitBlank (text : List Char) :
    List.intercalate "\n\n".toList (splitBlank text) = text := by
  fun_induction splitBlank text with
  | case1 rest ih =>
      rw [List.intercalate_cons_of_ne_nil (splitBlank_ne_nil rest), ih]
      rfl
  | case2 c rest _ ih =>
      obtain ⟨head, tail, h⟩ := List.exists_cons_of_ne_nil (splitBlank_ne_nil rest)
      rw [h] at ih ⊢
      rw [List.modifyHead_cons]
      cases tail with
      | nil => simpa using ih
      | cons next tail =>
          rw [List.intercalate_cons_of_ne_nil (List.cons_ne_nil _ _)] at ih ⊢
          rw [← ih]
          simp
  | case3 => rfl

/-- What is before the last separator and what is behind it are the text. -/
theorem splitLast_spec {text body metadata : List Char}
    (h : splitLast text = some (body, metadata)) : body ++ separator ++ metadata = text := by
  induction text generalizing body with
  | nil => nomatch h
  | cons c rest ih =>
      rw [splitLast] at h
      cases hrest : splitLast rest with
      | some parts =>
          obtain ⟨before, behind⟩ := parts
          rw [hrest] at h
          obtain ⟨rfl, rfl⟩ := Prod.mk.inj (Option.some.inj h)
          exact congrArg (c :: ·) (ih hrest)
      | none =>
          rw [hrest] at h
          simp only at h
          split at h
          next hopen =>
            obtain ⟨rfl, rfl⟩ := Prod.mk.inj (Option.some.inj h)
            obtain ⟨behind, hbehind⟩ := hopen
            rw [← hbehind]
            rfl
          next => nomatch h

theorem structured_spec {template : EmailTemplate} {subject text body metadata : List Char}
    (h : structured template subject text = some (body, metadata)) :
    body ++ separator ++ metadata = text := by
  rw [structured] at h
  split at h
  · exact splitLast_spec h
  · nomatch h

/-! ## The page as it is read -/

/-- The tags whose texts are a notification's. -/
def fieldTags : List (List Char) := [titleTag, subjectTag, paragraphTag, footerTag]

/-- What a template has of its own: no field, and no link but the one given. -/
def Plain (href : List Char) : Node → Prop
  | .tag content =>
      content ∉ fieldTags ∧ (tagName content = "a".toList → hrefOf content = some href)
  | .char _ | .comment _ => True

/-- Enough of a tag to tell it from a field. -/
def outline (content : List Char) : Option Char × ℕ := (content.head?, content.length)

def fieldOutlines : List (Option Char × ℕ) :=
  [(some 't', 5), (some 'h', 57), (some 'p', 25), (some 't', 92)]

theorem notMem_fieldTags {content : List Char} (h : outline content ∉ fieldOutlines) :
    content ∉ fieldTags := fun hmem => by
  have houtlines : ∀ tag ∈ fieldTags, outline tag ∈ fieldOutlines := by decide
  exact h (houtlines content hmem)

/-- A node that is neither a field nor a link. -/
def Ordinary : Node → Prop
  | .tag content => outline content ∉ fieldOutlines ∧ tagName content ≠ "a".toList
  | .char _ | .comment _ => True

instance : DecidablePred Ordinary := fun node =>
  match node with
  | .tag _ => inferInstanceAs (Decidable (_ ∧ _))
  | .char _ | .comment _ => inferInstanceAs (Decidable True)

theorem Ordinary.plain {node : Node} (h : Ordinary node) (href : List Char) :
    Plain href node := by
  cases node with
  | tag content => exact ⟨notMem_fieldTags h.1, fun hname => absurd hname h.2⟩
  | char _ => trivial
  | comment _ => trivial

/-- A fixed part of a page. -/
def Part (characters : List Char) : Prop :=
  Complete (parse characters) characters ∧ ∀ node ∈ parse characters, Ordinary node

instance (characters : List Char) : Decidable (Part characters) :=
  inferInstanceAs (Decidable (_ ∧ _))

/-- Nodes that are a template's own, with how they are written. -/
structure Written (href : List Char) (nodes : List Node) (html : List Char) : Prop where
  complete : Complete nodes html
  plain : ∀ node ∈ nodes, Plain href node

/-- Parts one behind the other. -/
theorem written_flatten {href : List Char} {parts : List (List Node)} {texts : List (List Char)}
    (h : List.Forall₂ (Written href) parts texts) : Written href parts.flatten texts.flatten := by
  induction h with
  | nil => exact ⟨complete_nil, fun _ h => nomatch h⟩
  | cons hpart _ ih =>
      exact ⟨hpart.complete.append ih.complete,
        List.forall_mem_append.mpr ⟨hpart.plain, ih.plain⟩⟩

theorem written_chars (href text : List Char) : Written href (chars text) (escape text) := by
  refine ⟨complete_chars text, fun node hnode => ?_⟩
  obtain ⟨c, -, rfl⟩ := List.mem_map.mp hnode
  trivial

theorem written_fixed {markup : String} {characters : List Char}
    (h : markup.toList = characters) (hpart : Part characters) (href : List Char) :
    Written href (fixed markup) markup.toList := by
  rw [fixed, h]
  exact ⟨hpart.1, fun node hnode => (hpart.2 node hnode).plain href⟩

set_option maxRecDepth 40000 in
theorem written_pageOpen (href : List Char) :
    Written href (fixed pageOpen) pageOpen.toList :=
  written_fixed (toList_append_eq (toList_eq rfl) (toList_eq rfl)) (by decide) href

set_option maxRecDepth 40000 in
theorem written_pageBody (href : List Char) :
    Written href (fixed pageBody) pageBody.toList :=
  written_fixed (toList_append_eq (toList_eq rfl) (toList_eq rfl)) (by decide) href

set_option maxRecDepth 40000 in
theorem written_pageTable (href : List Char) :
    Written href (fixed pageTable) pageTable.toList :=
  written_fixed
    (toList_append_eq (toList_append_eq (toList_eq rfl) (toList_eq rfl)) (toList_eq rfl))
    (by decide) href

set_option maxRecDepth 40000 in
theorem written_pageBox (href : List Char) :
    Written href (fixed pageBox) pageBox.toList :=
  written_fixed
    (toList_append_eq (toList_append_eq (toList_eq rfl) (toList_eq rfl)) (toList_eq rfl))
    (by decide) href

set_option maxRecDepth 40000 in
theorem written_pageCell (href : List Char) :
    Written href (fixed pageCell) pageCell.toList :=
  written_fixed (toList_eq rfl) (by decide) href

set_option maxRecDepth 40000 in
theorem written_pageContent (href : List Char) :
    Written href (fixed pageContent) pageContent.toList :=
  written_fixed (toList_eq rfl) (by decide) href

set_option maxRecDepth 40000 in
theorem written_pageFooter (href : List Char) :
    Written href (fixed pageFooter) pageFooter.toList :=
  written_fixed (toList_eq rfl) (by decide) href

set_option maxRecDepth 40000 in
theorem written_pageClose (href : List Char) :
    Written href (fixed pageClose) pageClose.toList :=
  written_fixed (toList_append_eq (toList_eq rfl) (toList_eq rfl)) (by decide) href

set_option maxRecDepth 40000 in
theorem written_approvalOpen (href : List Char) :
    Written href (fixed approvalOpen) approvalOpen.toList :=
  written_fixed (toList_eq rfl) (by decide) href

set_option maxRecDepth 40000 in
theorem written_approvalBody (href : List Char) :
    Written href (fixed approvalBody) approvalBody.toList :=
  written_fixed (toList_eq rfl) (by decide) href

set_option maxRecDepth 40000 in
theorem written_approvalButton (href : List Char) :
    Written href (fixed approvalButton) approvalButton.toList :=
  written_fixed (toList_append_eq (toList_eq rfl) (toList_eq rfl)) (by decide) href

set_option maxRecDepth 40000 in
theorem written_approvalFooter (href : List Char) :
    Written href (fixed approvalFooter) approvalFooter.toList :=
  written_fixed (toList_eq rfl) (by decide) href

set_option maxRecDepth 40000 in
theorem written_documentNote (href : List Char) :
    Written href (fixed documentNote) documentNote.toList :=
  written_fixed
    (toList_append_eq (toList_append_eq (toList_eq rfl) (toList_eq rfl)) (toList_eq rfl))
    (by decide) href

set_option maxRecDepth 40000 in
theorem written_documentOpen (href : List Char) :
    Written href (fixed documentOpen) documentOpen.toList :=
  written_fixed (toList_eq rfl) (by decide) href

set_option maxRecDepth 40000 in
theorem written_documentBody (href : List Char) :
    Written href (fixed documentBody) documentBody.toList :=
  written_fixed (toList_eq rfl) (by decide) href

set_option maxRecDepth 40000 in
theorem written_plainOpen (href : List Char) :
    Written href (fixed plainOpen) plainOpen.toList :=
  written_fixed (toList_eq rfl) (by decide) href

set_option maxRecDepth 40000 in
theorem written_plainButton (href : List Char) :
    Written href (fixed plainButton) plainButton.toList :=
  written_fixed (toList_append_eq (toList_eq rfl) (toList_eq rfl)) (by decide) href

set_option maxRecDepth 40000 in
theorem written_plainFooter (href : List Char) :
    Written href (fixed plainFooter) plainFooter.toList :=
  written_fixed (toList_eq rfl) (by decide) href

set_option maxRecDepth 40000 in
theorem written_plainLink (href : List Char) :
    Written href (fixed plainLink) plainLink.toList :=
  written_fixed (toList_eq rfl) (by decide) href

set_option maxRecDepth 4000 in
theorem written_closings (href : List Char) :
    Written href (fixed "</p>") "</p>".toList ∧ Written href (fixed "</div>") "</div>".toList ∧
      Written href (fixed "</a></p>") "</a></p>".toList :=
  ⟨written_fixed (toList_eq rfl) (by decide) href, written_fixed (toList_eq rfl) (by decide) href,
    written_fixed (toList_eq rfl) (by decide) href⟩

theorem written_tag {href content : List Char} (hvalid : (Node.tag content).Valid)
    (hplain : Plain href (.tag content)) : Written href [.tag content] (openTag content) :=
  ⟨complete_tag hvalid, by simpa using hplain⟩

set_option maxRecDepth 2000 in
theorem written_heading (href : List Char) (template : EmailTemplate) :
    Written href [.tag (headingTag (templateCopy template).color.toList)]
      (openTag (headingTag (templateCopy template).color.toList)) := by
  have hordinary : Ordinary (.tag (headingTag (templateCopy template).color.toList)) := by
    cases template <;> decide
  exact written_tag (by cases template <;> decide) (hordinary.plain href)

theorem written_button (href : List Char) (template : EmailTemplate) :
    Written href [.tag (buttonTag (templateCopy template).color.toList)]
      (openTag (buttonTag (templateCopy template).color.toList)) := by
  have hordinary : Ordinary (.tag (buttonTag (templateCopy template).color.toList)) := by
    cases template <;> decide
  exact written_tag (by cases template <;> decide) (hordinary.plain href)

/-- A link stays one tag whatever its address. -/
theorem written_link (href rest : List Char)
    (hrest : wellQuoted true ('"' :: rest) = true) :
    Written href [.tag ("a href=\"".toList ++ escape href ++ '"' :: rest)]
      (openTag ("a href=\"".toList ++ escape href ++ '"' :: rest)) := by
  have hvalid : wellQuoted false ("a href=\"".toList ++ escape href ++ '"' :: rest) = true :=
    wellQuoted_insert (quote_notMem_escape href) false rfl hrest
  have hfield : outline ("a href=\"".toList ++ escape href ++ '"' :: rest) ∉ fieldOutlines := by
    simp [outline, fieldOutlines]
  refine written_tag ⟨hvalid, ?_⟩ ⟨notMem_fieldTags hfield, fun _ => hrefOf_link href rest⟩
  rintro ⟨behind, h⟩
  nomatch List.head_eq_of_cons_eq h

/-! ## The sheet of a page -/

def paragraphNodes (texts : List (List Char)) : List Node :=
  texts.flatMap fun text => .tag paragraphTag :: (breaks text ++ [.tag "/p".toList])

/-- What is read of a page: what the template has of its own, and the texts. -/
structure Sheet where
  template : EmailTemplate
  before : List Node
  after : List Node
  subject : List Char
  heading : List Char
  body : List Char
  footer : List Char

def Sheet.content (sheet : Sheet) : List Node :=
  sheet.before ++ (paragraphNodes (splitBlank sheet.body) ++ sheet.after)

def Sheet.nodes (sheet : Sheet) : List Node :=
  [fixed pageOpen, [.tag titleTag], chars sheet.subject, fixed pageBody, fixed pageTable,
    fixed pageBox, [.tag (headingTag (templateCopy sheet.template).color.toList)],
    chars sheet.heading, fixed pageCell, [.tag subjectTag], chars (bareSubject sheet.subject),
    fixed pageContent, sheet.content, fixed pageFooter, [.tag footerTag], breaks sheet.footer,
    fixed pageClose].flatten

theorem complete_openTag {content : List Char} (h : (Node.tag content).Valid) :
    Complete [.tag content] (openTag content) := complete_tag h

theorem complete_lineBreaks (text : List Char) : Complete (breaks text) (lineBreaks text) :=
  complete_breaks text

theorem complete_paragraphs (text : List Char) :
    Complete (paragraphNodes (splitBlank text)) (paragraphs text) := by
  have hall : ∀ texts : List (List Char), Complete (paragraphNodes texts)
      (texts.flatMap fun text => openTag paragraphTag ++ lineBreaks text ++ "</p>".toList) := by
    intro texts
    induction texts with
    | nil => exact complete_nil
    | cons text texts ih =>
        have htag : Complete [.tag paragraphTag] (openTag paragraphTag) :=
          complete_openTag (by decide)
        have hend : Complete [.tag "/p".toList] "</p>".toList := by decide
        have hone := htag.append ((complete_lineBreaks text).append hend)
        rw [← List.append_assoc (openTag paragraphTag)] at hone
        rw [paragraphNodes, List.flatMap_cons, List.flatMap_cons]
        exact hone.append ih
  exact hall _

section Fields

variable {content : List Char}

theorem textsBehind_plain {href : List Char} {nodes : List Node}
    (h : ∀ node ∈ nodes, Plain href node) (hfield : content ∈ fieldTags) (rest : List Node) :
    textsBehind content (nodes ++ rest) = textsBehind content rest :=
  textsBehind_append (fun hmem => (h _ hmem).1 hfield) rest

theorem textsBehind_tag (field : List Char) (rest : List Node) :
    textsBehind content ([.tag field] ++ rest) =
      (if content = field then [leading rest] else []) ++ textsBehind content rest := by
  rw [List.singleton_append, textsBehind]
  by_cases h : content = field
  · rw [if_pos (by rw [h]), if_pos h]
    rfl
  · rw [if_neg fun heq => h (Node.tag.inj heq).symm, if_neg h]
    rfl

theorem textsBehind_breaks (hfield : content ∈ fieldTags) (text : List Char) (rest : List Node) :
    textsBehind content (breaks text ++ rest) = textsBehind content rest := by
  refine textsBehind_append (fun h => ?_) rest
  have hbr : "br".toList ∉ fieldTags := notMem_fieldTags (by decide)
  exact hbr (tag_mem_breaks h ▸ hfield)

theorem textsBehind_paragraphs (hfield : content ∈ fieldTags) (texts : List (List Char))
    (rest : List Node) :
    textsBehind content (paragraphNodes texts ++ rest) =
      (if content = paragraphTag then texts else []) ++ textsBehind content rest := by
  induction texts with
  | nil => simp [paragraphNodes]
  | cons text texts ih =>
      have hp : "/p".toList ∉ fieldTags := notMem_fieldTags (by decide)
      have hend : content ≠ "/p".toList := fun h => hp (h ▸ hfield)
      have hmore : paragraphNodes (text :: texts) ++ rest = [.tag paragraphTag] ++
          (breaks text ++ ([.tag "/p".toList] ++ (paragraphNodes texts ++ rest))) := by
        simp [paragraphNodes]
      have hleading : leading ([.tag "/p".toList] ++ (paragraphNodes texts ++ rest)) = [] := rfl
      rw [hmore, textsBehind_tag, textsBehind_breaks hfield, textsBehind_tag, if_neg hend, ih,
        leading_breaks_append, hleading]
      split <;> simp

end Fields

set_option maxRecDepth 4000 in
theorem leading_pageBody (rest : List Node) : leading (fixed pageBody ++ rest) = [] := by
  have hcharacters : pageBody.toList = _ := toList_append_eq (toList_eq rfl) (toList_eq rfl)
  rw [fixed, hcharacters]
  rfl

/-- The texts are where their tags are. -/
theorem Sheet.textsBehind_nodes {href : List Char} (sheet : Sheet)
    (hbefore : ∀ node ∈ sheet.before, Plain href node)
    (hafter : ∀ node ∈ sheet.after, Plain href node) (content : List Char)
    (hfield : content ∈ fieldTags) :
    textsBehind content sheet.nodes =
      (if content = titleTag then [sheet.subject] else []) ++
        ((if content = subjectTag then [bareSubject sheet.subject] else []) ++
          ((if content = paragraphTag then splitBlank sheet.body else []) ++
            if content = footerTag then [sheet.footer] else [])) := by
  have hheading := written_heading href sheet.template
  have hcontent : ∀ rest, leading (fixed pageContent ++ rest) = [] := fun _ => rfl
  have hend : leading (fixed pageClose ++ []) = [] := rfl
  rw [nodes]
  simp only [List.flatten_cons, List.flatten_nil, Sheet.content, List.append_assoc]
  rw [textsBehind_plain (written_pageOpen href).plain hfield, textsBehind_tag,
    textsBehind_plain (written_chars href _).plain hfield,
    textsBehind_plain (written_pageBody href).plain hfield,
    textsBehind_plain (written_pageTable href).plain hfield,
    textsBehind_plain (written_pageBox href).plain hfield,
    textsBehind_plain hheading.plain hfield, textsBehind_plain (written_chars href _).plain hfield,
    textsBehind_plain (written_pageCell href).plain hfield, textsBehind_tag,
    textsBehind_plain (written_chars href _).plain hfield,
    textsBehind_plain (written_pageContent href).plain hfield, textsBehind_plain hbefore hfield,
    textsBehind_paragraphs hfield, textsBehind_plain hafter hfield,
    textsBehind_plain (written_pageFooter href).plain hfield, textsBehind_tag,
    textsBehind_breaks hfield, textsBehind_plain (written_pageClose href).plain hfield,
    leading_chars_append, leading_chars_append, leading_breaks_append, leading_pageBody,
    hcontent, hend, textsBehind]
  simp only [List.append_nil]

/-! ## The sheets of the templates -/

/-- A content with a notification's text in its place. -/
structure Surrounds (href : List Char) (content : List Char → List Char)
    (before after : List Node) : Prop where
  written : ∃ beforeHtml afterHtml, Written href before beforeHtml ∧
    Written href after afterHtml ∧
      ∀ body, content body = beforeHtml ++ (paragraphs body ++ afterHtml)
  linked : ∃ link, .tag link ∈ before ++ after ∧ tagName link = "a".toList

/-- Parts before the text, the text, and parts behind it. -/
theorem surrounds {href : List Char} {content : List Char → List Char}
    {before after : List (List Node)} {beforeHtml afterHtml : List (List Char)}
    (hbefore : List.Forall₂ (Written href) before beforeHtml)
    (hafter : List.Forall₂ (Written href) after afterHtml)
    (hcontent : ∀ body, content body = (beforeHtml ++ paragraphs body :: afterHtml).flatten)
    (link : List Char) (hlink : [.tag link] ∈ before ++ after)
    (hname : tagName link = "a".toList) :
    Surrounds href content before.flatten after.flatten := by
  refine ⟨⟨_, _, written_flatten hbefore, written_flatten hafter, fun body => ?_⟩, link, ?_, hname⟩
  · rw [hcontent, List.flatten_append, List.flatten_cons]
  · rw [← List.flatten_append]
    exact List.mem_flatten.mpr ⟨_, hlink, List.mem_cons_self⟩

theorem Surrounds.complete {href : List Char} {content : List Char → List Char}
    {before after : List Node} (h : Surrounds href content before after)
    (template : EmailTemplate) (subject heading body footer : List Char) :
    Complete (Sheet.nodes ⟨template, before, after, subject, heading, body, footer⟩)
      (emailFrame subject heading (templateCopy template).color.toList (content body)
        (lineBreaks footer)) := by
  obtain ⟨beforeHtml, afterHtml, hbefore, hafter, hcontent⟩ := h.written
  have hbody := hbefore.complete.append ((complete_paragraphs body).append hafter.complete)
  rw [← hcontent body] at hbody
  have htitle : Complete [.tag titleTag] (openTag titleTag) := complete_openTag (by decide)
  have hsubject : Complete [.tag subjectTag] (openTag subjectTag) := complete_openTag (by decide)
  have hfoot : Complete [.tag footerTag] (openTag footerTag) := complete_openTag (by decide)
  have hfooter := (written_pageFooter href).complete.append (hfoot.append
    ((complete_lineBreaks footer).append ((written_pageClose href).complete.append complete_nil)))
  have hcell := (written_pageCell href).complete.append (hsubject.append
    ((complete_chars (bareSubject subject)).append
      ((written_pageContent href).complete.append (hbody.append hfooter))))
  have hheading := (written_heading href template).complete.append
    ((complete_chars heading).append hcell)
  have htop := (written_pageBody href).complete.append
    ((written_pageTable href).complete.append ((written_pageBox href).complete.append hheading))
  exact (written_pageOpen href).complete.append
    (htitle.append ((complete_chars subject).append htop))

theorem approval_surrounds (href : List Char) (template : EmailTemplate) (decision : Bool) :
    ∃ before after,
      Surrounds href (approvalContent (templateCopy template) decision href) before after := by
  have haction : escape (approvalAction decision).toList = (approvalAction decision).toList := by
    cases decision <;> decide
  have hlabel := written_chars href (approvalAction decision).toList
  rw [haction] at hlabel
  have hlink := written_link href (" style=\"".toList ++ approvalButtonStyle ++ ['"']) (by decide)
  have hbefore := List.Forall₂.cons (written_approvalOpen href)
    (.cons (written_chars href (approvalDescription decision).toList)
      (.cons (written_approvalBody href) .nil))
  have hafter := List.Forall₂.cons (written_approvalButton href)
    (.cons (written_button href template) (.cons hlink (.cons hlabel
      (.cons (written_approvalFooter href)
        (.cons (written_chars href (templateCopy template).footer.toList)
          (.cons (written_closings href).1 .nil))))))
  exact ⟨_, _, surrounds hbefore hafter (fun _ => rfl) (linkTag href approvalButtonStyle)
    (List.mem_append_right _ (.tail _ (.tail _ (.head _)))) rfl⟩

theorem document_surrounds (href : List Char) (template : EmailTemplate) :
    ∃ before after,
      Surrounds href (documentContent (templateCopy template) href) before after := by
  have hstyle : wellQuoted true ('"' :: (" style=\"".toList ++
      documentLinkStyle (templateCopy template) ++ ['"'])) = true := by
    cases template <;> decide
  have hbefore := List.Forall₂.cons (written_documentNote href) (.cons (written_documentOpen href)
    (.cons (written_link href _ hstyle) (.cons (written_documentBody href) .nil)))
  have hafter := List.Forall₂.cons (written_closings href).2.1 .nil
  exact ⟨_, _, surrounds hbefore hafter (fun _ => rfl)
    (linkTag href (documentLinkStyle (templateCopy template)))
    (.tail _ (.tail _ (.head _))) rfl⟩

theorem plain_surrounds (href : List Char) (template : EmailTemplate) :
    ∃ before after, Surrounds href (plainContent (templateCopy template) href) before after := by
  have hlink := written_link href (" style=\"".toList ++ plainButtonStyle ++ ['"']) (by decide)
  have hbefore := List.Forall₂.cons (written_plainOpen href) .nil
  have hafter := List.Forall₂.cons (written_plainButton href)
    (.cons (written_button href template) (.cons hlink
      (.cons (written_chars href (templateCopy template).action.toList)
        (.cons (written_plainFooter href)
          (.cons (written_chars href (templateCopy template).footer.toList)
            (.cons (written_plainLink href) (.cons (written_link href [] rfl)
              (.cons (written_chars href href) (.cons (written_closings href).2.2 .nil)))))))))
  exact ⟨_, _, surrounds hbefore hafter (fun _ => rfl) (linkTag href plainButtonStyle)
    (.tail _ (.tail _ (.tail _ (.head _)))) rfl⟩

/-- Whether a template tells a text's parts apart, and whether the subject is a decision's. -/
def shape (template : EmailTemplate) (subject text : List Char) : Bool × Bool :=
  ((structured template subject text).isSome, isDecision none subject)

/-- A page is its template's with the texts of the notification in their places. -/
theorem page_sheet (template : EmailTemplate) (href : List Char) (form : Bool × Bool) :
    ∃ before after content, Surrounds href content before after ∧
      ∀ subject text, shape template subject text = form → ∃ heading body footer,
        Complete (Sheet.nodes ⟨template, before, after, subject, heading, body, footer⟩)
          (page template subject text href) ∧
        body ++ (if form.1 then separator ++ footer else []) = text := by
  obtain ⟨parted, decision⟩ := form
  cases parted with
  | true =>
      by_cases happroval : template = .approval
      · obtain ⟨before, after, hsurrounds⟩ := approval_surrounds href template decision
        refine ⟨before, after, _, hsurrounds, fun subject text hshape => ?_⟩
        obtain ⟨hparts, hdecision⟩ := Prod.mk.inj hshape
        obtain ⟨⟨body, metadata⟩, hparts⟩ := Option.isSome_iff_exists.mp hparts
        refine ⟨approvalHeading decision, body, metadata, ?_, ?_⟩
        · rw [page, hparts, hdecision]
          simp only [if_pos happroval]
          exact hsurrounds.complete template subject (approvalHeading decision) body metadata
        · rw [if_pos rfl, ← List.append_assoc]
          exact structured_spec hparts
      · obtain ⟨before, after, hsurrounds⟩ := document_surrounds href template
        refine ⟨before, after, _, hsurrounds, fun subject text hshape => ?_⟩
        obtain ⟨hparts, -⟩ := Prod.mk.inj hshape
        obtain ⟨⟨body, metadata⟩, hparts⟩ := Option.isSome_iff_exists.mp hparts
        refine ⟨subject, body, metadata, ?_, ?_⟩
        · rw [page, hparts]
          simp only [if_neg happroval]
          exact hsurrounds.complete template subject subject body metadata
        · rw [if_pos rfl, ← List.append_assoc]
          exact structured_spec hparts
  | false =>
      have hnote : lineBreaks plainNote.toList = plainNote.toList := by decide
      obtain ⟨before, after, hsurrounds⟩ := plain_surrounds href template
      refine ⟨before, after, _, hsurrounds, fun subject text hshape => ?_⟩
      obtain ⟨hparts, -⟩ := Prod.mk.inj hshape
      rw [Option.isSome_eq_false_iff, Option.isNone_iff_eq_none] at hparts
      refine ⟨plainHeading (templateCopy template), text, plainNote.toList, ?_, List.append_nil _⟩
      rw [page, hparts]
      simp only
      rw [← hnote]
      exact hsurrounds.complete template subject _ text plainNote.toList

/-- What a page has of its template. -/
def Sheet.skeleton (sheet : Sheet) : List Node :=
  [fixed pageOpen, [.tag titleTag], fixed pageBody, fixed pageTable, fixed pageBox,
    [.tag (headingTag (templateCopy sheet.template).color.toList)], fixed pageCell,
    [.tag subjectTag], fixed pageContent, sheet.before, [.tag paragraphTag], [.tag "/p".toList],
    sheet.after, fixed pageFooter, [.tag footerTag], fixed pageClose].flatten

/-- What a page has of its texts. -/
def IsText (node : Node) : Prop := (∃ c, node = .char c) ∨ node = .tag "br".toList

theorem isText_chars {node : Node} {text : List Char} (h : node ∈ chars text) : IsText node := by
  obtain ⟨c, -, rfl⟩ := List.mem_map.mp h
  exact .inl ⟨c, rfl⟩

theorem isText_breaks {node : Node} {text : List Char} (h : node ∈ breaks text) :
    IsText node := by
  obtain ⟨c, -, rfl⟩ := List.mem_map.mp h
  split
  · exact .inr rfl
  · exact .inl ⟨c, rfl⟩

theorem mem_paragraphNodes {node : Node} {texts : List (List Char)}
    (h : node ∈ paragraphNodes texts) :
    IsText node ∨ node ∈ [.tag paragraphTag] ∨ node ∈ [.tag "/p".toList] := by
  obtain ⟨text, -, hmem⟩ := List.mem_flatMap.mp h
  rw [List.mem_cons, List.mem_append] at hmem
  obtain rfl | hmem | hmem := hmem
  · exact .inr (.inl List.mem_cons_self)
  · exact .inl (isText_breaks hmem)
  · exact .inr (.inr hmem)

/-- Every node of a page is its template's or a text's. -/
theorem Sheet.mem_nodes {sheet : Sheet} {node : Node} (h : node ∈ sheet.nodes) :
    IsText node ∨ node ∈ sheet.skeleton := by
  simp only [Sheet.nodes, Sheet.content, List.flatten_cons, List.flatten_nil, List.append_nil,
    List.mem_append] at h
  simp only [Sheet.skeleton, List.flatten_cons, List.flatten_nil, List.append_nil, List.mem_append]
  have hchars : ∀ text, node ∈ chars text → IsText node := fun _ => isText_chars
  have hbreaks : ∀ text, node ∈ breaks text → IsText node := fun _ => isText_breaks
  have hparagraphs := fun hmem : node ∈ paragraphNodes (splitBlank sheet.body) =>
    mem_paragraphNodes hmem
  grind

/-- A page has all of its template. -/
theorem Sheet.skeleton_subset {sheet : Sheet} {node : Node} (h : node ∈ sheet.skeleton) :
    node ∈ sheet.nodes := by
  simp only [Sheet.skeleton, List.flatten_cons, List.flatten_nil, List.append_nil,
    List.mem_append] at h
  simp only [Sheet.nodes, Sheet.content, List.flatten_cons, List.flatten_nil, List.append_nil,
    List.mem_append]
  have hparagraphs : node ∈ [.tag paragraphTag] ∨ node ∈ [.tag "/p".toList] →
      node ∈ paragraphNodes (splitBlank sheet.body) := by
    obtain ⟨text, texts, htexts⟩ := List.exists_cons_of_ne_nil (splitBlank_ne_nil sheet.body)
    intro hmem
    refine List.mem_flatMap.mpr ⟨text, htexts ▸ List.mem_cons_self, ?_⟩
    rw [List.mem_cons, List.mem_append]
    obtain hmem | hmem := hmem
    · exact .inl (List.mem_singleton.mp hmem)
    · exact .inr (.inr hmem)
  grind

/-- The only links of a page are those to the address. -/
theorem Sheet.hrefOf_eq {href : List Char} {sheet : Sheet}
    (hbefore : ∀ node ∈ sheet.before, Plain href node)
    (hafter : ∀ node ∈ sheet.after, Plain href node) {content : List Char}
    (hmem : .tag content ∈ sheet.nodes) (hname : tagName content = "a".toList) :
    hrefOf content = some href := by
  have hfield : ∀ field ∈ ["br".toList, "/p".toList, paragraphTag, titleTag, subjectTag, footerTag],
      tagName field ≠ "a".toList := by decide
  have hnot : ∀ field ∈ ["br".toList, "/p".toList, paragraphTag, titleTag, subjectTag,
      footerTag], Node.tag content ∉ [Node.tag field] := fun field hin h =>
    hfield field hin (Node.tag.inj (List.mem_singleton.mp h) ▸ hname)
  have hplain : ∀ {nodes : List Node}, (∀ node ∈ nodes, Plain href node) →
      Node.tag content ∈ nodes → hrefOf content = some href := fun h hin => (h _ hin).2 hname
  obtain (⟨c, hc⟩ | hbr) | hmem := mem_nodes hmem
  · nomatch hc
  · exact absurd (List.mem_singleton.mpr hbr) (hnot _ (by simp))
  · simp only [skeleton, List.flatten_cons, List.flatten_nil, List.append_nil,
      List.mem_append] at hmem
    have hopen := hplain (written_pageOpen href).plain
    have hbody := hplain (written_pageBody href).plain
    have htable := hplain (written_pageTable href).plain
    have hbox := hplain (written_pageBox href).plain
    have hheading := hplain (written_heading href sheet.template).plain
    have hcell := hplain (written_pageCell href).plain
    have hcontent := hplain (written_pageContent href).plain
    have hfooter := hplain (written_pageFooter href).plain
    have hclose := hplain (written_pageClose href).plain
    have htitle := hnot titleTag (by simp)
    have hsubject := hnot subjectTag (by simp)
    have hparagraph := hnot paragraphTag (by simp)
    have hend := hnot "/p".toList (by simp)
    have hfoot := hnot footerTag (by simp)
    have hbefore := hplain hbefore
    have hafter := hplain hafter
    grind

/-- A notification is read as it was written: its page is one of its template, whose links lead to
the address on the portal and whose tags no subject or text adds to, and the subject and the text
are in it as they were. -/
theorem notification_reads_as_written {parseUrl : String → Option Url} {publicUrl : Option String}
    {subject text html : List Char} {link : String} {template : EmailTemplate}
    (h : notificationHtml parseUrl publicUrl subject text link template = .ok html) :
    ∃ url, parseUrl link = some url ∧ url.protocol = "https:" ∧
      portalOrigin parseUrl publicUrl = .ok url.origin ∧
      (∃ content, .tag content ∈ parse html ∧ tagName content = "a".toList) ∧
      (∀ content, .tag content ∈ parse html → tagName content = "a".toList →
        hrefOf content = some url.href) ∧
      textsBehind titleTag (parse html) = [subject] ∧
      textsBehind subjectTag (parse html) = [bareSubject subject] ∧
      (∃ footer, textsBehind footerTag (parse html) = [footer] ∧
        List.intercalate "\n\n".toList (textsBehind paragraphTag (parse html)) ++
            (if (structured template subject (normaliseBreaks text)).isSome then
              separator ++ footer else []) = normaliseBreaks text) ∧
      ∀ subject' text' html',
        notificationHtml parseUrl publicUrl subject' text' link template = .ok html' →
        shape template subject' (normaliseBreaks text') =
          shape template subject (normaliseBreaks text) →
        ∀ node ∈ parse html, IsText node ∨ node ∈ parse html' := by
  obtain ⟨url, hurl, hprotocol, horigin, rfl⟩ := notificationHtml_ok h
  obtain ⟨before, after, content, hsurrounds, hpages⟩ :=
    page_sheet template url.href (shape template subject (normaliseBreaks text))
  obtain ⟨_, _, hbefore, hafter, _⟩ := hsurrounds.written
  obtain ⟨anchor, hanchor, hname⟩ := hsurrounds.linked
  obtain ⟨heading, body, footer, hcomplete, htext⟩ := hpages subject (normaliseBreaks text) rfl
  have htexts := Sheet.textsBehind_nodes
    ⟨template, before, after, subject, heading, body, footer⟩ hbefore.plain hafter.plain
  rw [hcomplete.parse]
  refine ⟨url, hurl, hprotocol, horigin, ⟨anchor, ?_, hname⟩, fun field hmem hfield => ?_,
    ?_, ?_, ⟨footer, ?_, ?_⟩, fun subject' text' html' h' hshape node hnode => ?_⟩
  · refine Sheet.skeleton_subset ?_
    simp only [Sheet.skeleton, List.flatten_cons, List.mem_append] at hanchor ⊢
    grind
  · exact Sheet.hrefOf_eq hbefore.plain hafter.plain hmem hfield
  · rw [htexts titleTag (.head _), if_pos rfl, if_neg (by decide), if_neg (by decide),
      if_neg (by decide)]
    rfl
  · rw [htexts subjectTag (.tail _ (.head _)), if_neg (by decide), if_pos rfl,
      if_neg (by decide), if_neg (by decide)]
    rfl
  · rw [htexts footerTag (.tail _ (.tail _ (.tail _ (.head _)))), if_neg (by decide),
      if_neg (by decide), if_neg (by decide), if_pos rfl]
    rfl
  · rw [htexts paragraphTag (.tail _ (.tail _ (.head _))), if_neg (by decide),
      if_neg (by decide), if_pos rfl, if_neg (by decide), List.nil_append, List.nil_append,
      List.append_nil, intercalate_splitBlank]
    exact htext
  · obtain ⟨url', hurl', -, -, rfl⟩ := notificationHtml_ok h'
    obtain rfl : url = url' := Option.some.inj (hurl.symm.trans hurl')
    obtain ⟨heading', body', footer', hcomplete', -⟩ := hpages subject' _ hshape
    rw [hcomplete'.parse]
    exact (Sheet.mem_nodes hnode).imp_right Sheet.skeleton_subset

/-- A decision whose document has a tag for its name, read from its page. -/
theorem notification_reads_as_written_decision :
    ∃ html, notificationHtml
        (fun _ => some ⟨"https:", "https://isms.example", "https://isms.example/approvals".toList⟩)
        (some "https://isms.example") "[ISMS Portal] Approved: <script>".toList
        "Version 2\r\n\r\n\"Final\"\r\n---\r\nOwner: A & B".toList "https://isms.example/approvals"
        .approval = .ok html ∧
      textsBehind titleTag (parse html) = ["[ISMS Portal] Approved: <script>".toList] ∧
      textsBehind subjectTag (parse html) = ["Approved: <script>".toList] := by
  obtain ⟨_, _, _, _, _, _, htitle, hsubject, _⟩ := notification_reads_as_written
    (rfl : notificationHtml
      (fun _ => some ⟨"https:", "https://isms.example", "https://isms.example/approvals".toList⟩)
      (some "https://isms.example") "[ISMS Portal] Approved: <script>".toList
      "Version 2\r\n\r\n\"Final\"\r\n---\r\nOwner: A & B".toList "https://isms.example/approvals"
      .approval = .ok _)
  exact ⟨_, rfl, htitle, hsubject⟩

end Notifications.Templates
