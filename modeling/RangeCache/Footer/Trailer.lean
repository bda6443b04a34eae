import RangeCache.Footer.Layout

/-!
# Trailers

An object ends in its footer, the length of the footer in four bytes, and the closing mark. `Footer.parse`
looks for the footer in the last bytes of an object: it finds a layout, it finds that it needs more bytes
and says how many, or it finds that the object has no usable footer. It knows the footer by its place alone,
and leaves it to a decoder what the bytes of it say.
-/

namespace RangeCache.Footer

/-- The bytes after a footer: its length and the mark. -/
def trailerLength : Nat := 8

/-- What the last bytes of an object tell. -/
inductive Parse where
  | complete (layout : Layout)
  /-- The last `required` bytes of the object hold the footer, or tell more about it. -/
  | needMore (required : Nat)
  deriving DecidableEq, Repr, Inhabited

/-- Parses the last bytes of an object of `size` bytes. What a footer says is read by `decode`. -/
def parse (decode : Bytes → Option FileRecord) (tail : Bytes) (size : Nat) : Except FooterFault Parse :=
  if size < tail.length then .error (.longTail tail.length size)
  else if size < markLength + trailerLength then .error (.shortObject size)
  else if tail.length < trailerLength then .ok (.needMore trailerLength)
  else
    let trailer := tail.last trailerLength
    let length := Bytes.toNatLittle (trailer.take 4)
    let found := trailer.drop 4
    let required := length + trailerLength
    if found = encryptedMark then .error .encrypted
    else if found ≠ mark then .error (.wrongMark found)
    else if size < required + markLength then .error (.longFooter length size)
    else if tail.length < required then .ok (.needMore required)
    else
      match decode ((tail.last required).take length) with
      | none => .error .undecodable
      | some f => (Layout.ofFile f ⟨size - required, size⟩).map .complete

end RangeCache.Footer
