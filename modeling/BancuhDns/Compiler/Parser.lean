import BancuhDns.Lib.Regex
import BancuhDns.Text

/-!
# The line parsers

The three parsers of a source line: a bare domain, a line of a hosts file, and a
CNAME line of a zone. Each runs one regular expression, unanchored, and hands
what the `domain` group captured to the domain parser – which runs a regular
expression of its own on it.

Two crates decide what becomes of a captured name: `addr`, which says whether it
is a domain name, and `idna`, which gives its ASCII form. They are a parameter
of everything here (`BancuhDns.Crates`).
-/

namespace BancuhDns

open Regex

/-- The crates a captured name goes through. -/
structure Crates where
  /-- `addr::parse_domain_name`, and `as_str` of the name it accepts. -/
  parseDomainName : Text → Option Text
  /-- `idna::domain_to_ascii`. -/
  domainToAscii : Text → Option Text

/-- The crates that accept every name and change none. -/
def Crates.lenient : Crates := ⟨some, some⟩

/-- The named groups of the regular expressions. -/
inductive Group where
  | ip
  | domain
  | alias
  deriving DecidableEq

/-! ### The regular expressions -/

/-- `.`, which matches anything but a line feed. -/
def anyChar (c : Char) : Bool := c ≠ '\n'

/-- `\.` -/
def dot : Regex Group Char := .cls fun c => c = '.'

/-- `\s+` -/
def spaces : Regex Group Char := .rep isWhitespace 1 none

/-- `\d{1,3}` -/
def digits : Regex Group Char := .rep isDecimal 1 (some 3)

/-- `\d{1,3}\.\d{1,3}\.\d{1,3}\.\d{1,3}` -/
def quad : Regex Group Char :=
  .seq digits (.seq dot (.seq digits (.seq dot (.seq digits (.seq dot digits)))))

/-- `.{2,200}\.[a-z]{2,6}` -/
def stemTld : Regex Group Char :=
  .seq (.rep anyChar 2 (some 200)) (.seq dot (.rep isLower 2 (some 6)))

/-- `(?P<domain>.{2,200}\.[a-z]{2,6})` -/
def domainRe : Regex Group Char := .cap .domain stemTld

/-- `(?P<ip>\d{1,3}\.\d{1,3}\.\d{1,3}\.\d{1,3})\s+(?P<domain>.{2,200}\.[a-z]{2,6})` -/
def hostRe : Regex Group Char := .seq (.cap .ip quad) (.seq spaces (.cap .domain stemTld))

/-- `(?P<domain>.{2,200}\.[a-z]{2,6})\s+(CNAME|cname)\s+(?P<alias>.{2,200}\.[a-z]{2,6})\.` -/
def cnameRe : Regex Group Char :=
  .seq (.cap .domain stemTld) (.seq spaces
    (.seq (.alt (lit "CNAME".toList) (lit "cname".toList)) (.seq spaces
      (.seq (.cap .alias stemTld) dot))))

/-! ### Domains -/

/-- A domain, or a wildcard `*.s`, of a list. -/
structure Domain where
  /-- The text of the domain. -/
  val : Text
  deriving DecidableEq

/-- The text a wildcard begins with. -/
def star : Text := ['*', '.']

/-- What `addr` makes of a captured name: a wildcard is checked without its
`*.` – and without every other `*.` in it – and gets one back. -/
def checkName (cr : Crates) (d : Text) : Option Text :=
  -- the name is put together again from what is left of it
  if startsWith star d then
    (cr.parseDomainName (replace star [] d)).map fun v => star ++ v
  else (cr.parseDomainName d).map trim

/-- `parse_domain`. -/
def parseDomain (cr : Crates) (value : Text) : Option Domain :=
  (search domainRe value).bind (fun cap => cap.name .domain)
    |>.bind (fun d => checkName cr d.text)
    |>.map trim
    |>.bind cr.domainToAscii
    |>.map Domain.mk

/-- `Domain::parse`. -/
def Domain.parse (cr : Crates) (value : Text) : Option Domain := parseDomain cr value

/-! ### Hosts -/

/-- A line of a hosts file. -/
structure Host where
  /-- The address. -/
  ip : Text
  /-- The domain it is given. -/
  domain : Domain
  deriving DecidableEq

/-- `parse_host`. -/
def parseHost (cr : Crates) (value : Text) : Option Host := do
  let captures ← search hostRe value
  match captures.name .ip, captures.name .domain with
  | some ip, some domain => do
    let domain ← Domain.parse cr (trim domain.text)
    return ⟨trim ip.text, domain⟩
  | _, _ => none

/-- `Host::parse`. -/
def Host.parse (cr : Crates) (value : Text) : Option Host := parseHost cr value

/-- `Host::into_domain`. -/
def Host.intoDomain (h : Host) : Domain := h.domain

/-! ### Canonical names -/

/-- A rewrite: a domain and the alias it is rewritten to. -/
structure CName where
  /-- The domain, or wildcard, that is rewritten. -/
  domain : Domain
  /-- What it is rewritten to. -/
  aliasName : Domain
  deriving DecidableEq

/-- `parse_cname`. -/
def parseCName (cr : Crates) (input : Text) : Option CName := do
  let captures ← search cnameRe input
  match captures.name .domain, captures.name .alias with
  | some domain, some target =>
    match Domain.parse cr (trim domain.text), Domain.parse cr (trim target.text) with
    | some domain, some target => some ⟨domain, target⟩
    | _, _ => none
  | _, _ => none

/-- `CName::parse`. -/
def CName.parse (cr : Crates) (input : Text) : Option CName := parseCName cr input

/-- `CName::into_domain`. -/
def CName.intoDomain (c : CName) : Domain := c.domain

end BancuhDns
