/-!
# Framework namespaces

Names whose presence shows that an import of a namespace of the framework is in
use. The table knows the common namespaces; others are not in it.
-/

namespace Workbench.CSharp

def frameworkNames : List (String × List String) :=
  [("System.Collections.Generic",
    ["List", "Dictionary", "HashSet", "IEnumerable", "IEnumerator", "IList", "ICollection", "IDictionary",
      "IReadOnlyList", "IReadOnlyCollection", "IReadOnlyDictionary", "KeyValuePair", "Queue", "Stack",
      "SortedDictionary", "SortedList", "SortedSet", "LinkedList", "IEqualityComparer", "IComparer",
      "Comparer", "EqualityComparer", "ISet", "PriorityQueue", "KeyNotFoundException"]),
   ("System.Linq",
    ["Select", "Where", "First", "FirstOrDefault", "Any", "All", "OrderBy", "OrderByDescending", "ThenBy",
      "ThenByDescending", "ToList", "ToArray", "ToDictionary", "ToHashSet", "ToLookup", "Count",
      "LongCount", "Sum", "Min", "Max", "MinBy", "MaxBy", "Average", "GroupBy", "SelectMany", "Distinct",
      "DistinctBy", "Skip", "SkipWhile", "Take", "TakeWhile", "Last", "LastOrDefault", "Single",
      "SingleOrDefault", "Aggregate", "Concat", "Zip", "Contains", "Enumerable", "Cast", "OfType",
      "Reverse", "Except", "Intersect", "Union", "AsEnumerable", "IQueryable", "Queryable", "SequenceEqual",
      "Chunk", "Append", "Prepend", "DefaultIfEmpty", "ElementAt", "ElementAtOrDefault", "Join",
      "GroupJoin", "ILookup", "IGrouping"]),
   ("System.Text",
    ["StringBuilder", "Encoding", "Rune", "UTF8Encoding", "ASCIIEncoding", "UnicodeEncoding", "Decoder",
      "Encoder", "NormalizationForm"]),
   ("System.Threading.Tasks",
    ["Task", "ValueTask", "TaskCompletionSource", "Parallel", "TaskFactory", "TaskScheduler", "TaskStatus",
      "TaskCreationOptions", "TaskCanceledException"]),
   ("System.Threading",
    ["Thread", "CancellationToken", "CancellationTokenSource", "Interlocked", "Monitor", "Mutex",
      "Semaphore", "SemaphoreSlim", "Volatile", "Timer", "ManualResetEvent", "ManualResetEventSlim",
      "AutoResetEvent", "ThreadPool", "Lock", "ReaderWriterLockSlim", "SpinLock", "SpinWait", "Barrier",
      "CountdownEvent", "ThreadLocal", "AsyncLocal"]),
   ("System.IO",
    ["File", "Directory", "Path", "Stream", "StreamReader", "StreamWriter", "FileInfo", "DirectoryInfo",
      "FileStream", "MemoryStream", "TextReader", "TextWriter", "StringReader", "StringWriter",
      "BinaryReader", "BinaryWriter", "IOException", "FileNotFoundException", "DirectoryNotFoundException",
      "FileMode", "FileAccess", "FileShare", "SearchOption", "FileSystemInfo", "SeekOrigin"])]

end Workbench.CSharp
