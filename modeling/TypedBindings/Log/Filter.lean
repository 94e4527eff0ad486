import TypedBindings.Log.Event
import TypedBindings.Text.Blank
import TypedBindings.Text.Pieces

/-!
# Log filters

A filter is a comma-separated list of directives: a limit for everything, or a limit for the
parts of the program whose path begins with a target.

* `Filter.ofText?`: reads a filter.
* `Filter.admits`: whether an event is let through.
-/

namespace TypedBindings.Log

/-- A limit for the events whose source begins with a target. -/
structure Directive where
  target : String
  limit : Limit
deriving DecidableEq, Repr

namespace Directive

/-- Whether a directive can begin with a character, a bracket apart. -/
def canOpen (c : Char) : Bool := c == '-' || c == ':' || c == '_' || c.isAlphanum || 128 ≤ c.toNat

/-- The limit behind an equals sign; nothing there means no limit. -/
def limitOf? (text : List Char) : Option Limit :=
  if text.isEmpty then some (.upTo .trace) else Limit.ofText? text

/-- A text without an equals sign: a limit for everything, or a target without a limit. -/
def ofWord (text : List Char) : Directive :=
  match Limit.ofText? text with
  | some limit => ⟨"", limit⟩
  | none => ⟨String.ofList text, .upTo .trace⟩

/-- Reads one directive. Places are counted in the text without the blanks around it but taken from
the text as it stands, so that blanks in front of a target move into it. A directive for a span
concerns no event, if the bracket around the span's name is closed. -/
def ofText? (text : List Char) : Option (List Directive) :=
  match Text.trim text with
  | [] => some [⟨"", .upTo .trace⟩]
  | '[' :: rest => span? [] rest
  | c :: rest =>
    if !canOpen c then none
    else
      let mark := (c :: rest).findIdx fun c => c == '=' || c == '['
      match (c :: rest)[mark]? with
      | none => some [ofWord text]
      | some '[' => span? (text.take mark) ((c :: rest).drop (mark + 1))
      | some _ =>
        (limitOf? (text.drop (mark + 1))).map fun limit =>
          [⟨String.ofList (text.take mark), limit⟩]
where
  /-- What stands behind an opening bracket. -/
  span? (target rest : List Char) : Option (List Directive) :=
    match rest.dropWhile (· ≠ ']') with
    | [] => some [⟨String.ofList target, .upTo .trace⟩]
    | [_] => some []
    | _ :: '=' :: limit => (limitOf? limit).map fun _ => []
    | _ => none

end Directive

/-- Directives; of two with one target the later counts. -/
structure Filter where
  directives : List Directive

namespace Filter

/-- Reads a filter. An empty text lets nothing through. -/
def ofText? (text : String) : Option Filter :=
  ((Text.words (· == ',') text.toList).mapM Directive.ofText?).map fun ds => ⟨ds.flatten⟩

/-- The filter in force when none is given, or one that cannot be read. -/
def standard : Filter := ⟨[⟨"", .upTo .info⟩]⟩

/-- A filter with one limit for everything. -/
def ofLimit (limit : Limit) : Filter := ⟨[⟨"", limit⟩]⟩

/-- The better of two directives: that of the longer target, or else the later one. -/
def prefer (best : Option Directive) (d : Directive) : Option Directive :=
  match best with
  | some b => if d.target.length < b.target.length then some b else some d
  | none => some d

/-- The directive that decides about a source. -/
def deciding? (f : Filter) (source : Source) : Option Directive :=
  (f.directives.filter fun d => d.target.toList.isPrefixOf source.path.toList).foldl prefer none

/-- Whether an event is let through; one that no directive is about is not. -/
def admits (f : Filter) (e : Event) : Bool :=
  (f.deciding? e.source).any fun d => d.limit.admits e.level

/-- The filter for a wanted limit and the text of the environment's filter, which gives way. -/
def choose (wanted : Option Limit) (environment : Option String) : Filter :=
  match wanted, environment with
  | some limit, _ => ofLimit limit
  | none, some text => (ofText? text).getD standard
  | none, none => standard

end Filter

end TypedBindings.Log
