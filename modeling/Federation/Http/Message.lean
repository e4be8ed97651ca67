import Federation.Http.Header
import Federation.Http.Status
import Federation.Report

/-!
# Requests and replies

What credentials send, and what comes back: a response with its status and payload, or the error of
a transport that got none.
-/

namespace Federation.Http

inductive Method where
  | get
  | post
  deriving DecidableEq, Repr

def Method.name : Method → String
  | .get => "GET"
  | .post => "POST"

structure Request where
  method : Method
  url : String
  headers : Headers
  body : Option Bytes
  deriving DecidableEq, Repr

structure Response where
  status : Status
  body : Bytes
  deriving DecidableEq, Repr

inductive Reply where
  | response (r : Response)
  | failure (e : Report)
  deriving DecidableEq, Repr

def Request.get (url : String) (headers : Headers) : Request := ⟨.get, url, headers, none⟩

def Request.post (url : String) (headers : Headers) (body : String) : Request :=
  ⟨.post, url, headers, some (Utf8.encode body)⟩

end Federation.Http
