/-
What is known of types that the sources do not declare: which of them
are collections, and what some of their members give.
-/

namespace SourceBundle.Platform

/-- The members of every object. -/
def objectMembers : List String :=
  ["ToString", "Equals", "GetHashCode", "GetType", "MemberwiseClone", "ReferenceEquals"]

/-- Collections whose elements are of their one type argument. -/
def sequenceTypes : List String :=
  ["List", "IList", "IEnumerable", "ICollection", "IReadOnlyList", "IReadOnlyCollection",
   "HashSet", "SortedSet", "ISet", "Queue", "Stack", "LinkedList", "IOrderedEnumerable", "Span",
   "ReadOnlySpan", "Memory", "ReadOnlyMemory", "ImmutableArray", "ImmutableList", "IQueryable",
   "IAsyncEnumerable"]

/-- Collections of keys with values. -/
def mapTypes : List String :=
  ["Dictionary", "IDictionary", "IReadOnlyDictionary", "SortedDictionary", "SortedList",
   "ConcurrentDictionary"]

/-- Methods that give one element of a sequence. -/
def elementMethods : List String :=
  ["First", "FirstOrDefault", "Last", "LastOrDefault", "Single", "SingleOrDefault", "ElementAt",
   "ElementAtOrDefault", "Dequeue", "Pop", "Peek", "MinBy", "MaxBy", "Find", "FindLast"]

/-- Methods that give a sequence of the same elements. -/
def sequenceMethods : List String :=
  ["Where", "OrderBy", "OrderByDescending", "ThenBy", "ThenByDescending", "Reverse", "Distinct",
   "DistinctBy", "Skip", "Take", "SkipWhile", "TakeWhile", "SkipLast", "TakeLast", "Concat",
   "Except", "Union", "Intersect", "AsEnumerable", "FindAll", "GetRange", "Append", "Prepend"]

/-- The types that values of a number type turn into by themselves; the types not listed are no
number types. -/
def widening : List (String × List String) :=
  [("sbyte", ["short", "int", "long", "float", "double", "decimal"]),
   ("byte", ["short", "ushort", "int", "uint", "long", "ulong", "float", "double", "decimal"]),
   ("short", ["int", "long", "float", "double", "decimal"]),
   ("ushort", ["int", "uint", "long", "ulong", "float", "double", "decimal"]),
   ("int", ["long", "float", "double", "decimal"]),
   ("uint", ["long", "ulong", "float", "double", "decimal"]),
   ("long", ["float", "double", "decimal"]),
   ("ulong", ["float", "double", "decimal"]),
   ("char", ["ushort", "int", "uint", "long", "ulong", "float", "double", "decimal"]),
   ("float", ["double"])]

/-- Whether a type is one of those that widen. -/
def widens (name : String) : Bool :=
  widening.any (·.1 = name)

/-- Whether values of the first type turn into values of the second. -/
def widensTo (name wider : String) : Bool :=
  ((widening.lookup name).getD []).contains wider

/-- The types that take every value. -/
def anyTypes : List String :=
  ["object", "dynamic"]

end SourceBundle.Platform
