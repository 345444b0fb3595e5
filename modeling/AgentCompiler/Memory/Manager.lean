import AgentCompiler.Text.Lines

/-!
# The memory manager

The module that agents with a memory of their own share. It is written next to the agents' modules.
-/

namespace AgentCompiler.Memory

/-- The file of the module. -/
def managerFile : String := "ltm_memory_manager.py"

/-- The code of the module. -/
def managerSource : String :=
  Text.ofLines [
    r#""""Rolling session summaries for agents without a managed memory resource."#,
    "",
    "Each agent module owns one LongTermMemoryManager. The root module owns a",
    "SessionCoordinator and binds every manager of the agent tree to it, so a",
    "single end_all_sessions() call closes the session of every agent.",
    r#"""""#,
    "",
    "import asyncio",
    "import json",
    "import os",
    "from datetime import datetime",
    "from typing import Any, Dict, List",
    "",
    "",
    "def _stream_text(model, prompt: str) -> str:",
    "    async def collect():",
    "        chunks = []",
    r#"        async for event in model.stream(messages=[{"role": "user", "content": [{"text": prompt}]}]):"#,
    "            chunks.append(event)",
    "        return chunks",
    "",
    r#"    text = """#,
    "    for chunk in asyncio.run(collect()):",
    r#"        if "contentBlockDelta" in chunk:"#,
    r#"            text += chunk["contentBlockDelta"].get("delta", {}).get("text", "")"#,
    "    return text",
    "",
    "",
    "class LongTermMemoryManager:",
    "    def __init__(",
    "        self,",
    "        llm_summarizer,",
    "        storage_path: str,",
    "        max_sessions: int = 20,",
    r#"        summarization_prompt: str = "","#,
    "        max_days: int = 30,",
    r#"        platform: str = "langchain","#,
    "    ):",
    "        self.llm_summarizer = llm_summarizer",
    "        self.storage_path = storage_path",
    "        self.max_sessions = max_sessions",
    "        self.max_days = max_days",
    "        self.summarization_prompt = summarization_prompt",
    "        self.platform = platform",
    "        self.current_session_messages: List[Dict[str, str]] = []",
    "        self._last_memory_update_time = 0.0",
    "        self.session_summaries = self._load()",
    "",
    "    def _load(self) -> List[Dict[str, Any]]:",
    "        if not os.path.exists(self.storage_path):",
    "            return []",
    r#"        with open(self.storage_path, "r", encoding="utf-8") as f:"#,
    "            return json.load(f)",
    "",
    "    def _save(self):",
    r#"        with open(self.storage_path, "w", encoding="utf-8") as f:"#,
    "            json.dump(self.session_summaries, f)",
    "        self._last_memory_update_time = os.path.getmtime(self.storage_path)",
    "",
    "    def add_message(self, message: Dict[str, str]):",
    "        self.current_session_messages.append(message)",
    "",
    "    def _summarize(self) -> str:",
    r#"        conversation = "\n\n".join("#,
    r#"            f"{msg['role'].capitalize()}: {msg['content']}" for msg in self.current_session_messages"#,
    "        )",
    r#"        past = "\n".join(entry["summary"] for entry in self.session_summaries)"#,
    r#"        prompt = self.summarization_prompt.replace("$past_conversation_summary$", past).replace("#,
    r#"            "$conversation$", conversation"#,
    "        )",
    "        try:",
    r#"            if self.platform == "langchain":"#,
    "                return self.llm_summarizer.invoke(prompt).content",
    "            return _stream_text(self.llm_summarizer, prompt)",
    "        except Exception as e:",
    r#"            print(f"Error generating summary: {str(e)}")"#,
    r#"            last = self.current_session_messages[-1]["content"]"#,
    r#"            return f"Session summary generation failed. Last message: {last}""#,
    "",
    "    def end_session(self):",
    r#"        """Summarize the current session, then prune by age and count.""""#,
    "        if not self.current_session_messages:",
    "            return",
    "        now = datetime.now()",
    r#"        self.session_summaries.append({"timestamp": now.isoformat(), "summary": self._summarize()})"#,
    "        self.session_summaries = [",
    "            entry",
    "            for entry in self.session_summaries",
    r#"            if (now - datetime.fromisoformat(entry["timestamp"])).days <= self.max_days"#,
    "        ][-self.max_sessions:]",
    "        self._save()",
    "        self.current_session_messages = []",
    "",
    "    def get_memory_synopsis(self) -> str:",
    r#"        return "\n".join(entry["summary"] for entry in self.session_summaries)"#,
    "",
    "    def has_memory_changed(self) -> bool:",
    "        if not os.path.exists(self.storage_path):",
    "            return False",
    "        mtime = os.path.getmtime(self.storage_path)",
    "        if mtime != self._last_memory_update_time:",
    "            self._last_memory_update_time = mtime",
    "            return True",
    "        return False",
    "",
    "    def clear_current_session(self):",
    "        self.current_session_messages = []",
    "",
    "",
    "class SessionCoordinator:",
    r#"    """Ends the sessions of every memory manager bound to it.""""#,
    "",
    "    def __init__(self):",
    "        self._managers: List[LongTermMemoryManager] = []",
    "",
    "    def register(self, manager: LongTermMemoryManager):",
    "        if all(existing is not manager for existing in self._managers):",
    "            self._managers.append(manager)",
    "",
    "    def end_all_sessions(self):",
    "        for manager in self._managers:",
    "            try:",
    "                manager.end_session()",
    "            except Exception as e:",
    r#"                print(f"Error ending session: {str(e)}")"#,
    ""]

end AgentCompiler.Memory
