import ModelHub.Url.Host

namespace ModelHub

open Url (Host)

inductive UrlPath where
  /-- Text without segments, on which nothing can be resolved. -/
  | whole (text : String)
  | segments (list : List String)
  deriving DecidableEq, Repr

structure Url where
  scheme : String
  /-- Encoded, as it is written. -/
  user : String := ""
  password : String := ""
  host : Option Host := none
  port : Option Nat := none
  path : UrlPath
  query : Option String := none
  fragment : Option String := none
  deriving DecidableEq, Repr

namespace UrlPath

def text : UrlPath → String
  | whole text => text
  | segments list => String.join (list.map ("/" ++ ·))

end UrlPath

namespace Url

/-- The ports that are left out, by scheme. These schemes always have a host. -/
def usualPorts : List (String × Nat) :=
  [("http", 80), ("https", 443), ("ws", 80), ("wss", 443), ("ftp", 21)]

def fileScheme : String := "file"

/-- Schemes in which a backslash is as good as a slash. -/
def isSpecial (scheme : String) : Bool :=
  scheme = fileScheme || (usualPorts.lookup scheme).isSome

def hasCredentials (url : Url) : Bool := url.user ≠ "" || url.password ≠ ""

def credentials (url : Url) : String :=
  if url.hasCredentials then
    url.user ++ (if url.password = "" then "" else ":" ++ url.password) ++ "@"
  else ""

def authority (url : Url) : String :=
  match url.host with
  | none => ""
  | some host =>
    "//" ++ url.credentials ++ host.text ++ (url.port.map fun port => ":" ++ toString port).getD ""

/-- Without a host a path must not begin with two slashes. -/
def pathGuard (url : Url) : String :=
  match url.host, url.path with
  | none, .segments ("" :: _ :: _) => "/."
  | _, _ => ""

def text (url : Url) : String :=
  url.scheme ++ ":" ++ url.authority ++ url.pathGuard ++ url.path.text ++
    (url.query.map ("?" ++ ·)).getD "" ++ (url.fragment.map ("#" ++ ·)).getD ""

def readsAsText (part : String) : Bool := (Host.decodeText? part.toList).isSome

/-- What a request is sent to: user and password travel apart if they can be read as text. -/
def target (url : Url) : Url :=
  if readsAsText url.user && (url.user ≠ "" || readsAsText url.password) then
    { url with user := "", password := "" }
  else url

end Url

end ModelHub
