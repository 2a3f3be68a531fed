import PumaDev.Go.Strings

/-!
# From a `Host` header to a name

`HTTPServer.removeTLD` turns the `Host` of a request into the name that the
pool is asked for.
-/

namespace PumaDev

/-- The loop over the configured domains: the host without the first of them it
ends in. -/
def trimDomain (host : GoString) : List GoString → Option GoString
  | [] => none
  | tld :: rest =>
      if Strings.hasSuffix host ('.' :: tld) then some (Strings.trimSuffix host ('.' :: tld))
      else trimDomain host rest

/-- `HTTPServer.removeTLD`, with `h.Domains` as its first argument. -/
def removeTLD (domains : List GoString) (host : GoString) : GoString :=
  let host := match Strings.lastIndexByte host ':' with
    | none => host
    | some _ =>
        match Net.splitHostPort host with
        | some (h, _) => h
        | none => host
  if Strings.hasSuffix host ".xip.io".toList ∨ Strings.hasSuffix host ".nip.io".toList then
    let parts := Strings.split host '.'
    if parts.length < 6 then [] else Strings.join (parts.take (parts.length - 6)) '.'
  else
    match trimDomain host domains with
    | some name => name
    | none =>
        match Strings.lastIndexByte host '.' with
        | none => host
        | some dot => host.take dot

end PumaDev
