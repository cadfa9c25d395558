/-
This file embeds `PostMan.java`, which sends parameters in a query string or in a body.
-/

import Projs.Construction.Java.Charset

namespace Projs.JavaUtiler
open Java

/-- A `LinkedHashMap` holds its entries in the order of their first insertion, each key once. -/
structure Params where
  entries : List (JavaString × JavaString)
  distinct : (entries.map Prod.fst).Nodup

/-- A base URL has neither a query nor a fragment. -/
structure BaseUrl where
  text : JavaString
  plain : 0x3F ∉ text ∧ 0x23 ∉ text

/-- This is what `Collectors.joining` collects. -/
def joining (delimiter : JavaString) : List JavaString → JavaString
  | [] => []
  | [text] => text
  | text :: next :: rest => text ++ (delimiter ++ joining delimiter (next :: rest))

/-- Both methods write the entries as they are. -/
def queryStr (entries : List (JavaString × JavaString)) : JavaString :=
  joining (literal "&") (entries.map fun e => e.1 ++ (literal "=" ++ e.2))

/-- This is a request as it is given to the connection; only a post has a body. -/
structure Request where
  method : JavaString
  url : JavaString
  body : Option (List UInt8)
  deriving DecidableEq, Repr

def get (urlStr : BaseUrl) (params : Params) : Request where
  method := literal "GET"
  url := urlStr.text ++ (literal "?" ++ queryStr params.entries)
  body := none

/-- The `PrintWriter` writes the body in the default charset. -/
def post (defaultCharset : Charset) (urlStr : BaseUrl) (params : Params) : Request where
  method := literal "POST"
  url := urlStr.text
  body := some (defaultCharset.encode (queryStr params.entries))

/-- The source's `request` knows two methods and sends nothing for any other. -/
def request (defaultCharset : Charset) (method : JavaString) (url : BaseUrl) (params : Params) :
    Option Request :=
  if method = literal "get" then some (get url params)
  else if method = literal "post" then some (post defaultCharset url params)
  else none

/-- The constructor of `java.net.URL` drops white space at the end, cuts the fragment off, and takes
what is behind the first question mark as the query. -/
def Request.query (request : Request) : Option JavaString :=
  let spec := request.url.rdropWhile fun character => character ≤ 0x20
  let file := spec.takeWhile fun character => character != 0x23
  if 0x3F ∈ file then some (file.dropWhile fun character => character != 0x3F).tail else none

end Projs.JavaUtiler
