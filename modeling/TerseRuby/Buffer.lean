/-!
# Collecting text piece by piece

`Buffer` gathers the pieces of a text and joins them once, when the text is asked for.  Its two
operations are determined by their effect on `Buffer.build`: `build_append` and
`build_appendJoined_cons` say that one appends a text and the other a list of texts with a
separator between neighbours.  Empty pieces are not stored.
-/

set_option autoImplicit false

namespace TerseRuby

/-- Text under construction. -/
structure Buffer where
  /-- The pieces written so far, the latest first. -/
  pieces : List String
  deriving Repr

namespace Buffer

/-- A buffer nothing has been written to. -/
def empty : Buffer := ⟨[]⟩

/-- Write a text after what is there. -/
def append (b : Buffer) (text : String) : Buffer :=
  if text.isEmpty then b else ⟨text :: b.pieces⟩

/-- Write texts with `separator` between each two neighbours. -/
def appendJoined (b : Buffer) (separator : String) : List String → Buffer
  | [] => b
  | first :: rest => rest.foldl (fun b text => (b.append separator).append text) (b.append first)

/-- The text written so far. -/
def build (b : Buffer) : String := b.pieces.reverse.foldl (· ++ ·) ""

/-! ## What the operations do to the text -/

@[simp] theorem build_empty : empty.build = "" := rfl

@[simp] theorem build_append (b : Buffer) (text : String) :
    (b.append text).build = b.build ++ text := by
  by_cases h : text = ""
  · simp [append, h]
  · simp [append, build, h]

@[simp] theorem build_appendJoined_nil (b : Buffer) (separator : String) :
    (b.appendJoined separator []).build = b.build := rfl

/-- The texts after the first each come with a separator before them. -/
theorem build_appendJoined_cons (b : Buffer) (separator first : String) (rest : List String) :
    (b.appendJoined separator (first :: rest)).build =
      rest.foldl (fun text next => text ++ separator ++ next) (b.build ++ first) := by
  have step : ∀ (rest : List String) (b : Buffer),
      (rest.foldl (fun b text => (b.append separator).append text) b).build =
        rest.foldl (fun text next => text ++ separator ++ next) b.build := by
    intro rest
    induction rest with
    | nil => intro b; rfl
    | cons next rest ih => intro b; simp [ih]
  rw [appendJoined, step, build_append]

end Buffer
end TerseRuby
