import PullRange.Options

/-!
# Options from environment variables

Two variables stand for the two settings, the chunk size first. A variable that is set to the empty
text counts as set.
-/

namespace PullRange.Options

def chunkSizeVariable : String := "RESULT_RANGE_CHUNK_SIZE"

def tracingVariable : String := "RESULT_RANGE_DEBUG"

def entriesOfEnvironment (environment : List (String × String)) : List (String × String) :=
  let entry (name source : String) :=
    ((environment.lookup source).map fun value => (name, value)).toList
  entry "chunksize" chunkSizeVariable ++ entry "debug" tracingVariable

def configureFromEnvironment (environment : List (String × String)) (tracing : Bool) :
    Except OptionError ChunkSize × Bool :=
  configure (entriesOfEnvironment environment) .default tracing

end PullRange.Options
